import JaneCheck.Assign
import JaneCheck.Proofs.ConstantRanges

/-!
# Numbers cut to a type

Cutting a number to an integer category keeps its low bits (`Category.cut`). Of the
numbers with these bits the category holds one only (`eq_of_holds`), so what is held is
not changed, and a cut that is followed by a narrower one leaves no trace (`cut_cut`).

`Const.pin` cuts, whether the number comes as a signed or as an unsigned word
(`pin_eq_word`). An assignment accepts the numbers that its target holds.
-/

namespace JaneCheck

namespace Category

/-- The number of the category that has the low bits of `x`. -/
def cut (ws : WordSize) (c : Category) (x : Int) : Int :=
  if c.isSigned then x.bmod (2 ^ c.width ws) else x % 2 ^ c.width ws

section Cut

variable {ws : WordSize} {c d : Category} {x y : Int}

theorem signed_or_unsigned (h : c.isInteger = true) :
    c.isSigned = true ∨ c.isSigned = false ∧ c.isUnsigned = true := by
  revert h
  cases c <;> decide

theorem isFloat_of_integer (h : c.isInteger = true) : c.isFloat = false := by
  revert h
  cases c <;> decide

theorem holds_cut (h : c.isInteger = true) (x : Int) : c.Holds ws (c.cut ws x) := by
  rcases signed_or_unsigned h with hs | ⟨hs, hu⟩
  · rw [cut, if_pos hs]
    exact holds_bmod hs x
  · rw [cut, if_neg (by simp [hs]), holds_unsigned hu]
    have hpos : (0 : Int) < 2 ^ c.width ws := Int.pow_pos (by decide)
    exact ⟨Int.emod_nonneg x (Int.ne_of_gt hpos), Int.emod_lt_of_pos x hpos⟩

theorem cut_emod (ws : WordSize) (c : Category) (x : Int) :
    c.cut ws x % 2 ^ c.width ws = x % 2 ^ c.width ws := by
  unfold cut
  split
  · have hmod : x.bmod (2 ^ c.width ws) % ((2 ^ c.width ws : Nat) : Int) =
        x % ((2 ^ c.width ws : Nat) : Int) := Int.bmod_emod
    simpa using hmod
  · exact Int.emod_emod_of_dvd x (Int.dvd_refl _)

theorem eq_of_holds (h : c.isInteger = true) (hx : c.Holds ws x) (hy : c.Holds ws y)
    (hmod : x % 2 ^ c.width ws = y % 2 ^ c.width ws) : x = y := by
  rcases signed_or_unsigned h with hs | ⟨-, hu⟩
  · rw [holds_signed hs] at hx hy
    rcases width_integer ws h with hw | hw | hw | hw <;> rw [hw] at hx hy hmod <;> omega
  · rw [holds_unsigned hu] at hx hy
    rwa [Int.emod_eq_of_lt hx.1 hx.2, Int.emod_eq_of_lt hy.1 hy.2] at hmod

theorem cut_of_holds (h : c.isInteger = true) (hx : c.Holds ws x) : c.cut ws x = x :=
  eq_of_holds h (holds_cut h x) hx (cut_emod ws c x)

theorem cut_congr (h : c.isInteger = true) (hmod : x % 2 ^ c.width ws = y % 2 ^ c.width ws) :
    c.cut ws x = c.cut ws y := by
  apply eq_of_holds h (holds_cut h x) (holds_cut h y)
  rw [cut_emod, cut_emod, hmod]

theorem emod_of_le {m n : Nat} (h : m ≤ n) (hmod : x % 2 ^ n = y % 2 ^ n) :
    x % 2 ^ m = y % 2 ^ m := by
  have hdvd : (2 : Int) ^ m ∣ 2 ^ n := by exact_mod_cast Nat.pow_dvd_pow 2 h
  rw [← Int.emod_emod_of_dvd x hdvd, hmod, Int.emod_emod_of_dvd y hdvd]

theorem cut_cut (h : c.isInteger = true) (hle : c.width ws ≤ d.width ws) (x : Int) :
    c.cut ws (d.cut ws x) = c.cut ws x :=
  cut_congr h (emod_of_le hle (cut_emod ws d x))

end Cut

/-! ## Words -/

/-- A number as a word of the sort that the category uses. -/
def word (c : Category) (x : Int) : Const :=
  if c.isSigned then .int (Int64.ofInt x) else .uint (UInt64.ofNat x.toNat)

theorem number?_word {ws : WordSize} {c : Category} {x : Int} (h : c.isInteger = true)
    (hx : c.Holds ws x) : (c.word x).number? = some x := by
  have hwidth := width_integer ws h
  rcases signed_or_unsigned h with hs | ⟨hs, hu⟩
  · rw [holds_signed hs] at hx
    rw [word, if_pos hs]
    refine congrArg some (Int64.toInt_ofInt_of_le ?_ ?_)
    all_goals
      rcases hwidth with hw | hw | hw | hw <;> rw [hw] at hx <;> omega
  · rw [holds_unsigned hu] at hx
    rw [word, if_neg (by simp [hs])]
    have hlt : x.toNat < 2 ^ 64 := by
      rcases hwidth with hw | hw | hw | hw <;> rw [hw] at hx <;> omega
    refine congrArg some ?_
    rw [UInt64.toNat_ofNat_of_lt' hlt, Int.toNat_of_nonneg hx.1]

end Category

namespace Const

section Words

variable {ws : WordSize} {t u : Ty} {k : Const} {x : Int}

theorem toInt_toInt64 (h : k.number? = some x) : k.toInt64.toInt = x.bmod (2 ^ 64) := by
  cases k with
  | int n =>
    cases h
    exact (Int.bmod_eq_of_le n.le_toInt n.toInt_lt).symm
  | uint n =>
    cases h
    show n.toInt64.toInt = _
    rw [← Int64.toInt_toBitVec, UInt64.toBitVec_toInt64, BitVec.toInt_eq_toNat_bmod,
      UInt64.toNat_toBitVec]
  | _ => cases h

/-- The number of a constant, taken as an unsigned word. -/
theorem toNat_toUInt64 (h : k.number? = some x) : (k.toUInt64.toNat : Int) = x % 2 ^ 64 := by
  cases k with
  | int n =>
    cases h
    show (n.toUInt64.toNat : Int) = _
    rw [← UInt64.toNat_toBitVec, Int64.toBitVec_toUInt64, ← Int64.toInt_toBitVec,
      BitVec.toInt_eq_toNat_bmod]
    have hmod := Int.bmod_emod (x := (n.toBitVec.toNat : Int)) (m := 2 ^ 64)
    have hlt := n.toBitVec.isLt
    omega
  | uint n =>
    cases h
    have hlt := n.toNat_lt
    show (n.toNat : Int) = _
    omega
  | _ => cases h

theorem isNumeric_of_number (hx : k.number? = some x) : k.isNumeric = true := by
  cases k with
  | int _ | uint _ => rfl
  | _ => cases hx

theorem pin_signed (hpure : t.isPure = true) (hs : t.category.isSigned = true)
    (hx : k.number? = some x) :
    k.pin ws t = .int (Int64.ofInt (x.bmod (2 ^ t.category.width ws))) := by
  have hsorts : t.category.isFloat = false ∧ t.category.isUnsigned = false ∧
      t.category.isNumeric = true := by
    revert hs
    cases t.category <;> decide
  have hwidths := Category.width_integer ws (c := t.category) (by simp [Category.isInteger, hs])
  have hle : t.category.width ws ≤ 64 := by omega
  have hcut : k.toInt64.toInt.bmod (2 ^ t.category.width ws) =
      x.bmod (2 ^ t.category.width ws) := by
    rw [toInt_toInt64 hx, Int.bmod_bmod_of_dvd (Nat.pow_dvd_pow 2 hle)]
  simp only [pin, castTo, Ty.isNumber, hpure, hsorts, hs, isNumeric_of_number hx, Bool.and_self,
    Bool.not_true, Bool.or_self, Bool.false_eq_true, if_false, if_true]
  split
  · rw [← hcut, ← toInt_signedBits (by omega), Int64.ofInt_toInt]
  · have hwidth : t.category.width ws = 64 := by omega
    rw [hwidth, Int.bmod_eq_of_le k.toInt64.le_toInt k.toInt64.toInt_lt] at hcut
    rw [hwidth, ← hcut, Int64.ofInt_toInt]

theorem pin_unsigned (hpure : t.isPure = true) (hu : t.category.isUnsigned = true)
    (hx : k.number? = some x) :
    k.pin ws t = .uint (UInt64.ofNat (x % 2 ^ t.category.width ws).toNat) := by
  have hsorts : t.category.isFloat = false ∧ t.category.isNumeric = true := by
    revert hu
    cases t.category <;> decide
  have hwidths := Category.width_integer ws (c := t.category) (by simp [Category.isInteger, hu])
  have hle : t.category.width ws ≤ 64 := by omega
  have hcut : k.toUInt64.toNat % 2 ^ t.category.width ws =
      (x % 2 ^ t.category.width ws).toNat := by
    have hdvd : (2 : Int) ^ t.category.width ws ∣ 2 ^ 64 := by
      exact_mod_cast Nat.pow_dvd_pow 2 hle
    rw [← Int.emod_emod_of_dvd x hdvd, ← toNat_toUInt64 hx]
    exact_mod_cast (Int.toNat_natCast _).symm
  simp only [pin, castTo, Ty.isNumber, hpure, hsorts, hu, isNumeric_of_number hx, Bool.and_self,
    Bool.not_true, Bool.or_self, Bool.false_eq_true, if_false, if_true]
  split
  next hlt => rw [← hcut, ← toNat_lowBits hlt, UInt64.ofNat_toNat]
  · have hwidth : t.category.width ws = 64 := by omega
    rw [hwidth, Nat.mod_eq_of_lt k.toUInt64.toNat_lt] at hcut
    rw [hwidth, ← hcut, UInt64.ofNat_toNat]

/-- A constant is cut by its number alone: the word that it comes in does not matter. -/
theorem pin_eq_word (hpure : t.isPure = true) (hinteger : t.category.isInteger = true)
    (hx : k.number? = some x) : k.pin ws t = t.category.word (t.category.cut ws x) := by
  rcases Category.signed_or_unsigned hinteger with hs | ⟨hs, hu⟩
  · rw [pin_signed hpure hs hx, Category.word, Category.cut, if_pos hs, if_pos hs]
  · have hnot : ¬ t.category.isSigned = true := by simp [hs]
    rw [pin_unsigned hpure hu hx, Category.word, Category.cut, if_neg hnot, if_neg hnot]

theorem number?_pin (hpure : t.isPure = true) (hinteger : t.category.isInteger = true)
    (hx : k.number? = some x) : (k.pin ws t).number? = some (t.category.cut ws x) := by
  rw [pin_eq_word hpure hinteger hx]
  exact Category.number?_word hinteger (Category.holds_cut hinteger x)

/-- A cut to a type that is at least as wide does not change what a cut gives. -/
theorem pin_pin (hpure : t.isPure = true) (hinteger : t.category.isInteger = true)
    (hpure' : u.isPure = true) (hinteger' : u.category.isInteger = true)
    (hle : t.category.width ws ≤ u.category.width ws) (hx : k.number? = some x) :
    (k.pin ws u).pin ws t = k.pin ws t := by
  rw [pin_eq_word hpure hinteger (number?_pin hpure' hinteger' hx),
    pin_eq_word hpure hinteger hx, Category.cut_cut hinteger hle]

end Words

end Const

/-! ## The range check -/

namespace Assign

variable {k : Assign} {t : Ty} {v : Value} {c : Const} {x : Int}

/-- The comparison of words, signed or unsigned, is one of numbers. -/
theorem fitsInteger_iff {ws : WordSize} {target : Category} (hinteger : target.isInteger = true)
    (hx : c.number? = some x) : fitsInteger ws target c = true ↔ target.Holds ws x := by
  rcases Category.signed_or_unsigned hinteger with hs | ⟨hs, hu⟩
  · rw [Category.Holds, Category.range_signed ws hs, Category.minSigned, Category.maxSigned]
    cases c with
    | int n =>
      cases hx
      simp [fitsInteger, hs, Int64.le_iff_toInt_le]
    | uint n =>
      cases hx
      have hlow : (target.leastSigned ws).toInt ≤ 0 ∧
          ((target.greatestSigned ws).toUInt64.toNat : Int) = (target.greatestSigned ws).toInt := by
        revert hs
        cases target <;> cases ws <;> decide
      simp only [fitsInteger, hs, if_true, decide_eq_true_eq, UInt64.le_iff_toNat_le]
      omega
    | _ => cases hx
  · rw [Category.Holds, Category.range_unsigned ws hu, Category.maxUnsigned]
    cases c with
    | int n =>
      cases hx
      have hcast : ((n.toUInt64).toNat : Int) = n.toInt % 2 ^ 64 := Const.toNat_toUInt64 (k := .int n) rfl
      have hhigh := n.toInt_lt
      simp only [fitsInteger, hs, Bool.false_eq_true, if_false, Bool.and_eq_true, decide_eq_true_eq,
        ge_iff_le, Int64.le_iff_toInt_le, UInt64.le_iff_toNat_le, Int64.toInt_zero]
      omega
    | uint n =>
      cases hx
      simp [fitsInteger, hs, UInt64.le_iff_toNat_le]
    | _ => cases hx

/-- A known integer goes where the type holds it; else it is an overflow. -/
theorem check_integer (k : Assign) (hpure : t.isPure = true)
    (hinteger : t.category.isInteger = true) (hv : v.type.isNumber = true)
    (hc : v.constant = some c) (hx : c.number? = some x) :
    k.check t v = if t.category.Holds k.wordSize x then [] else [.overflow] := by
  have hstorable : notStorable? v = none := by
    have hfunction : v.type.isFunction = false := by
      have hparts := (Bool.and_eq_true_iff.mp hv).1
      simp only [Ty.isPure, Bool.and_eq_true, Bool.not_eq_true'] at hparts
      exact hparts.2
    simp [notStorable?, hfunction]
  have hfloat := Category.isFloat_of_integer hinteger
  have hrange : inRange? k.wordSize t v = some (fitsInteger k.wordSize t.category c) := by
    simp [inRange?, hc, hpure, hv, hfloat, hinteger]
  unfold check
  rw [hstorable, hrange]
  by_cases hholds : t.category.Holds k.wordSize x
  · simp [(fitsInteger_iff hinteger hx).mpr hholds, hholds]
  · have hfits : fitsInteger k.wordSize t.category c = false := by
      rw [← Bool.not_eq_true, fitsInteger_iff hinteger hx]
      exact hholds
    simp [hfits, hholds]

/-- The range check accepts a known integer exactly when the type holds its number. Cutting
it to the type gives the number that the type holds and that has the same low bits: the number
itself exactly when it was accepted. Cutting it again, or first to a type of integers that is
at least as wide, changes nothing. -/
theorem range_check_agrees_with_pin (k : Assign) (hpure : t.isPure = true)
    (hinteger : t.category.isInteger = true) (hv : v.type.isNumber = true)
    (hc : v.constant = some c) (hx : c.number? = some x) :
    (k.check t v = [] ↔ t.category.Holds k.wordSize x) ∧
    (∃ y, (c.pin k.wordSize t).number? = some y ∧ t.category.Holds k.wordSize y ∧
      y % 2 ^ t.category.width k.wordSize = x % 2 ^ t.category.width k.wordSize ∧
      (k.check t v = [] ↔ y = x)) ∧
    (c.pin k.wordSize t).pin k.wordSize t = c.pin k.wordSize t ∧
    ∀ u : Ty, u.isPure = true → u.category.isInteger = true →
      t.category.width k.wordSize ≤ u.category.width k.wordSize →
      (c.pin k.wordSize u).pin k.wordSize t = c.pin k.wordSize t := by
  have haccepts : k.check t v = [] ↔ t.category.Holds k.wordSize x := by
    rw [check_integer k hpure hinteger hv hc hx]
    by_cases hholds : t.category.Holds k.wordSize x <;> simp [hholds]
  have hcut : t.category.Holds k.wordSize (t.category.cut k.wordSize x) :=
    Category.holds_cut hinteger x
  have hkept : t.category.Holds k.wordSize x ↔ t.category.cut k.wordSize x = x :=
    ⟨Category.cut_of_holds hinteger, fun h => h ▸ hcut⟩
  refine ⟨haccepts, ⟨_, Const.number?_pin hpure hinteger hx, hcut, ?_, haccepts.trans hkept⟩, ?_, ?_⟩
  · exact Category.cut_emod _ _ x
  · exact Const.pin_pin hpure hinteger hpure hinteger (Nat.le_refl _) hx
  · intro u hpure' hinteger' hle
    exact Const.pin_pin hpure hinteger hpure' hinteger' hle hx

/-- Words of 32 bits. -/
def narrowWords : Assign where
  defs := ⟨fun _ _ => false, fun _ => false, fun _ => .base .u32⟩
  wordSize := .w32

/-- The unsigned word in which all bits are set. -/
def allOnes : Const := .uint 18446744073709551615

theorem range_check_agrees_with_pin_allOnes :
    (Ty.base .u64).isNumber = true ∧ allOnes.number? = some 18446744073709551615 ∧
    (narrowWords.check (.base .int) (.ofConst (.base .u64) allOnes) = [] ↔
      Category.int.Holds .w32 18446744073709551615) ∧
    (∃ y, (allOnes.pin .w32 (.base .int)).number? = some y ∧ Category.int.Holds .w32 y ∧
      y % 2 ^ 32 = 18446744073709551615 % 2 ^ 32 ∧
      (narrowWords.check (.base .int) (.ofConst (.base .u64) allOnes) = [] ↔
        y = 18446744073709551615)) ∧
    (allOnes.pin .w32 (.base .int)).pin .w32 (.base .int) = allOnes.pin .w32 (.base .int) ∧
    ∀ u : Ty, u.isPure = true → u.category.isInteger = true → 32 ≤ u.category.width .w32 →
      (allOnes.pin .w32 u).pin .w32 (.base .int) = allOnes.pin .w32 (.base .int) :=
  ⟨rfl, rfl, range_check_agrees_with_pin narrowWords (v := .ofConst (.base .u64) allOnes)
    (t := .base .int) rfl rfl rfl rfl rfl⟩

end Assign

end JaneCheck
