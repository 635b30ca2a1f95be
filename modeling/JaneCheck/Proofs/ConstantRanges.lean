import JaneCheck.Proofs.Ranges
import JaneCheck.Proofs.VoidReads

/-!
# Constants and the ranges of their types

A known number lies in the range of its type (`Const.Fits`). Literals fit, casts
and globals cut a number to its type, and a binary operator chooses the type for the
number. Two operations can leave the range: a binary operator on runes keeps the type
of its operands, and the type of an operand can be too narrow for its negation or
complement. `Strays` has a rule for each, and for what only passes such a number on.
-/

namespace JaneCheck

open Syntax (BinOp Expr GlobalDef Ident TypeExpr UnOp)

/-! ## Numbers -/

/-- The number that an integer constant stands for. -/
def Const.number? : Const → Option Int
  | .int x => some x.toInt
  | .uint x => some x.toNat
  | .bool _ | .text _ | .float _ => none

/-- A number of an integer type lies in its range. -/
def Const.Fits (ws : WordSize) (t : Ty) (k : Const) : Prop :=
  t.isPure = true → t.category.isInteger = true → ∀ x ∈ k.number?, t.category.Holds ws x

def Value.Fits (ws : WordSize) (v : Value) : Prop := ∀ k ∈ v.constant, k.Fits ws v.type

section Fits

variable {ws : WordSize} {t : Ty} {k : Const} {v : Value}

theorem Const.fits_of_not_integer (h : t.category.isInteger = false) : k.Fits ws t := by
  intro _ hinteger
  rw [h] at hinteger
  cases hinteger

theorem Value.fits_of_unknown (h : v.constant = none) : v.Fits ws := by
  intro k hk
  rw [h] at hk
  cases hk

theorem toNat_lowBits {width : Nat} (h : width < 64) (v : UInt64) :
    (Const.lowBits width v).toNat = v.toNat % 2 ^ width := by
  have hshift : (1 <<< UInt64.ofNat width : UInt64).toNat = 2 ^ width := by
    have hlt : 2 ^ width < 2 ^ 64 := Nat.pow_lt_pow_right (by decide) h
    have hwidth : (UInt64.ofNat width).toNat % 64 = width := by
      rw [UInt64.toNat_ofNat_of_lt' (Nat.lt_trans h (by decide)), Nat.mod_eq_of_lt h]
    rw [UInt64.toNat_shiftLeft, hwidth, UInt64.toNat_one, Nat.one_shiftLeft, Nat.mod_eq_of_lt hlt]
  have hone : (1 : UInt64) ≤ 1 <<< UInt64.ofNat width := by
    rw [UInt64.le_iff_toNat_le, hshift]
    exact Nat.one_le_two_pow
  rw [Const.lowBits, UInt64.toNat_and, UInt64.toNat_sub_of_le _ _ hone, hshift, UInt64.toNat_one,
    Nat.and_two_pow_sub_one_eq_mod]

theorem toNat_shift : ∀ s : Fin 64, ((Int64.ofNat s).toBitVec.smod 64).toNat = s := by
  decide +kernel

/-- A shift to the left and back keeps the low bits, with the highest of them as
the sign. -/
theorem toInt_signedBits {width : Nat} (h : width = 8 ∨ width = 16 ∨ width = 32) (v : Int64) :
    (Const.signedBits width v).toInt = v.toInt.bmod (2 ^ width) := by
  have hshift := toNat_shift ⟨64 - width, by omega⟩
  have hbits : (Const.signedBits width v).toInt =
      ((v.toBitVec.toNat * 2 ^ (64 - width) : Nat) : Int).bmod (2 ^ 64) / (2 ^ (64 - width) : Nat) := by
    rw [Const.signedBits, ← Int64.toInt_toBitVec, Int64.toBitVec_shiftRight,
      Int64.toBitVec_shiftLeft, BitVec.sshiftRight', BitVec.shiftLeft_eq', BitVec.toInt_sshiftRight,
      BitVec.toInt_shiftLeft, hshift, Int.shiftRight_eq_div_pow, Nat.shiftLeft_eq]
  have hcut : v.toInt.bmod (2 ^ width) = (v.toBitVec.toNat : Int).bmod (2 ^ width) := by
    rw [← Int64.toInt_toBitVec, BitVec.toInt_eq_toNat_bmod,
      Int.bmod_bmod_of_dvd (Nat.pow_dvd_pow 2 (by omega))]
  rw [hbits, hcut]
  rcases h with rfl | rfl | rfl
  all_goals
    simp only [Int.bmod_def]
    omega

/-- What is cut to a type fits it. -/
theorem Const.fits_pin (ws : WordSize) (t : Ty) (k : Const) : (k.pin ws t).Fits ws t := by
  intro hpure hinteger x hx
  have hnumber : t.isNumber = true := by
    simp [Ty.isNumber, hpure, Category.isNumeric, hinteger]
  have hfloat : t.category.isFloat = false := by
    revert hinteger
    cases t.category <;> decide
  have hwidth := Category.width_integer ws hinteger
  cases hk : k.isNumeric with
  | false =>
    simp only [pin, hnumber, hk, Bool.not_true, Bool.not_false, Bool.or_true, if_true] at hx
    cases k with
    | bool _ | text _ => cases hx
    | _ => cases hk
  | true =>
    cases hunsigned : t.category.isUnsigned with
    | true =>
      simp only [pin, hnumber, hk, castTo, hfloat, hunsigned, Bool.not_true, Bool.or_self,
        Bool.false_eq_true, if_false, if_true] at hx
      split at hx
      next hlt =>
        cases hx
        rw [toNat_lowBits hlt]
        exact Category.holds_mod hunsigned _
      next hlt =>
        cases hx
        exact Category.holds_toNat hunsigned (by omega) _
    | false =>
      have hsigned : t.category.isSigned = true := by
        simpa [Category.isInteger, hunsigned] using hinteger
      simp only [pin, hnumber, hk, castTo, hfloat, hunsigned, hsigned, Bool.not_true, Bool.or_self,
        Bool.false_eq_true, if_false, if_true] at hx
      split at hx
      next hlt =>
        cases hx
        rw [toInt_signedBits (by omega)]
        exact Category.holds_bmod hsigned _
      next hlt =>
        cases hx
        exact Category.holds_toInt hsigned (by omega) _

theorem Const.fits_narrowest (h : Operator.narrowest? k = some t) : k.Fits ws t := by
  intro _ _ x hx
  cases k with
  | int n =>
    cases h
    cases hx
    exact (Category.narrowest_signedWidth ws n).holds
  | uint n =>
    cases h
    cases hx
    exact Category.holds_unsignedWidth ws n
  | _ => cases hx

/-- An operator chooses the type for the number, unless a rune takes part. -/
theorem Operator.fits_settle {l r : Value} (hl : l.isRune = false) (hr : r.isRune = false) :
    (settle l r v).Fits ws := by
  unfold settle
  split
  · exact Value.fits_of_unknown rfl
  · cases hv : v.constant with
    | none => exact Value.fits_of_unknown hv
    | some k =>
      simp only [hl, hr, Bool.or_self, Bool.false_eq_true, if_false]
      cases ht : narrowest? k with
      | some t =>
        intro k' hk'
        cases hk'
        exact Const.fits_narrowest ht
      | none =>
        intro k' hk'
        cases hv.symm.trans hk'
        cases k with
        | int _ | uint _ | float _ => cases ht
        | bool _ | text _ =>
          intro _ _ x hx
          cases hx

end Fits

/-! ## Negation and complement -/

/-- Integers of signed types are signed words, those of unsigned types unsigned ones. -/
def Const.IsOf (c : Category) : Const → Prop
  | .int _ => c.isSigned = true
  | .uint _ => c.isUnsigned = true
  | .bool _ | .text _ | .float _ => True

/-- The type of the operand may be too narrow for the result: no negative number is
of an unsigned type, and the least number of a signed type has no opposite. A constant
that is not of the sort of its type is changed as one of the other sort. -/
inductive Slips (ws : WordSize) : UnOp → Value → Prop
  | unsigned {op v} (hop : op = .neg ∨ op = .bitNot) (h : v.type.category.isUnsigned = true)
      (hnarrow : v.type.category.width ws < 64) : Slips ws op v
  | least {v k} (hk : k ∈ v.constant) (h : k.number? = some (v.type.category.minSigned ws))
      (hnarrow : v.type.category.width ws < 64) : Slips ws .neg v
  | sort {op v k} (hop : op = .neg ∨ op = .bitNot) (hk : k ∈ v.constant)
      (h : ¬ k.IsOf v.type.category) : Slips ws op v

section Unary

variable {ws : WordSize} {c : Category} {v w : Value} {op : UnOp}

theorem Category.holds_neg (hsigned : c.isSigned = true) {n : Int64} (hn : c.Holds ws n.toInt)
    (hleast : c.width ws < 64 → n.toInt ≠ c.minSigned ws) : c.Holds ws (-n).toInt := by
  have hwidth := width_integer ws (c := c) (by simp [isInteger, hsigned])
  by_cases hnarrow : c.width ws < 64
  · have hne := hleast hnarrow
    have hrange := range_signed ws hsigned
    simp only [range, hsigned, if_true, Nat.pow_eq, Int.natCast_pow, Int.cast_ofNat_Int,
      Prod.mk.injEq] at hrange
    rw [holds_signed hsigned] at hn ⊢
    have hopposite : (-n).toInt = -n.toInt := by
      rw [Int64.toInt_neg]
      refine Int.bmod_eq_of_le ?_ ?_
      all_goals
        rcases hwidth with hw | hw | hw | hw <;> rw [hw] at hn <;> omega
    rw [hopposite]
    omega
  · exact holds_toInt hsigned (by omega) _

theorem Category.holds_not (hsigned : c.isSigned = true) {n : Int64} (hn : c.Holds ws n.toInt) :
    c.Holds ws (~~~n).toInt := by
  have hwidth := width_integer ws (c := c) (by simp [isInteger, hsigned])
  rw [holds_signed hsigned] at hn ⊢
  have hcomplement : (~~~n).toInt = -n.toInt - 1 := by
    rw [Int64.toInt_not]
    refine Int.bmod_eq_of_le ?_ ?_
    all_goals
      rcases hwidth with hw | hw | hw | hw <;> rw [hw] at hn <;> omega
  rw [hcomplement]
  omega

/-- The constant of a unary operation fits where that of the operand does. -/
theorem Const.fits_foldUnary {k : Const} (hk : k ∈ v.constant) (hfits : k.Fits ws v.type)
    (hslip : ¬ Slips ws op v) : (Check.foldUnary op k).Fits ws v.type := by
  intro hpure hinteger x hx
  have hwidth := Category.width_integer ws hinteger
  have hwide : op = .neg ∨ op = .bitNot → v.type.category.isUnsigned = true →
      v.type.category.width ws = 64 := fun hop h => by
    have hnot : ¬ v.type.category.width ws < 64 := fun hnarrow => hslip (.unsigned hop h hnarrow)
    omega
  have hsort : op = .neg ∨ op = .bitNot → k.IsOf v.type.category := fun hop => by
    by_cases h : k.IsOf v.type.category
    · exact h
    · exact absurd (.sort hop hk h) hslip
  cases k with
  | int n =>
    have hheld := hfits hpure hinteger _ rfl
    cases op with
    | neg =>
      cases hx
      refine Category.holds_neg (hsort (.inl rfl)) hheld fun hnarrow hleast => ?_
      exact hslip (.least hk (congrArg some hleast) hnarrow)
    | bitNot =>
      cases hx
      exact Category.holds_not (hsort (.inr rfl)) hheld
    | _ =>
      cases hx
      exact hheld
  | uint n =>
    have hheld := hfits hpure hinteger _ rfl
    cases op with
    | neg =>
      cases hx
      exact Category.holds_toNat (hsort (.inl rfl)) (hwide (.inl rfl) (hsort (.inl rfl))) _
    | bitNot =>
      cases hx
      exact Category.holds_toNat (hsort (.inr rfl)) (hwide (.inr rfl) (hsort (.inr rfl))) _
    | _ =>
      cases hx
      exact hheld
  | _ => cases op <;> cases hx

theorem Value.Fits.unary (hv : v.Fits ws) (h : Check.unaryValue? op v = some w)
    (hslip : ¬ Slips ws op v) : w.Fits ws := by
  unfold Check.unaryValue? at h
  cases op with
  | neg | plus | bitNot =>
    dsimp only at h
    split at h
    · cases h
      intro k' hk'
      obtain ⟨k, hk, rfl⟩ := Option.map_eq_some_iff.mp hk'
      exact Const.fits_foldUnary (v := v) hk (hv k hk) hslip
    · cases h
  | not =>
    dsimp only at h
    split at h
    next hbool =>
      cases h
      intro k _
      refine Const.fits_of_not_integer ?_
      have hcategory : v.type.category = .bool := by
        simpa using (Bool.and_eq_true_iff.mp hbool).2
      show v.type.category.isInteger = false
      rw [hcategory]
      rfl
    next => cases h
  | deref | addressOf =>
    dsimp only at h
    split at h
    · cases h
      exact Value.fits_of_unknown rfl
    · cases h

end Unary

namespace Check

open Value (fits_of_unknown)

/-! ## What is stored -/

/-- The numbers that are stored in variables and globals fit their types. -/
structure Stored (ws : WordSize) (p : Package) (s : State) : Prop where
  vars : ∀ var ∈ s.scopes.vars, ∀ k ∈ var.constant, k.Fits ws var.type
  globals : ∀ id, ∀ v ∈ (p.global id).value, v.Fits ws
  remembered : ∀ entry ∈ s.globalCache, entry.2.Fits ws

/-- The constants that are cut to a type. -/
theorem leads_pin {env : Env} {s : State} (k : Option Const) (t : Ty) :
    Leads .any env s (k.mapM (pin · t)) fun k' _ =>
      ∀ c ∈ k', c.Fits env.options.wordSize t := by
  intro k' s' hrun _
  cases k with
  | none =>
    cases hrun
    nofun
  | some k =>
    cases hrun
    intro c hc
    cases hc
    exact Const.fits_pin _ t k

section Globals

variable {p : Package} {o : Options} {s s' : State}

theorem fits_globalOf {env : Env} (decl : GlobalDef) (declared : Option Ty) (v : Value) :
    Leads .any env s (globalOf decl declared v) fun w _ => w.Fits env.options.wordSize := by
  unfold globalOf
  extract_lets rest
  have hrest : ∀ s t, Leads .any env s (rest t) fun w _ => w.Fits env.options.wordSize := by
    intro s t
    dsimp only [rest]
    split
    · exact .pure (fits_of_unknown rfl)
    split
    · split
      · exact .after fun _ _ _ => .bind (leads_pin v.constant t) fun _ _ _ hk => .pure hk
      · exact .bind (leads_pin v.constant t) fun _ _ _ hk => .pure hk
    · exact .bind (leads_pin none t) fun _ _ _ hk => .pure hk
  cases declared with
  | some t =>
    refine .after fun ok s1 _ => ?_
    split
    · exact .after fun _ s2 _ => hrest s2 t
    · exact hrest _ t
  | none => exact .after fun t s1 _ => hrest s1 t

theorem fits_computeGlobal {env : Env} (decl : GlobalDef) :
    Leads .any env s (computeGlobal decl) fun w _ => w.Fits env.options.wordSize := by
  unfold computeGlobal
  extract_lets rest
  have hrest : ∀ s declared, Leads .any env s (rest declared) fun w _ =>
      w.Fits env.options.wordSize := by
    intro s declared
    refine .after fun r s1 _ => ?_
    cases r with
    | none => exact .pure (fits_of_unknown rfl)
    | some v => exact fits_globalOf decl declared v
  cases decl.type with
  | some t => exact .after fun declared s1 _ => hrest s1 declared
  | none => exact hrest s none

/-- What is remembered of globals is what was before, or it fits. -/
theorem Trace.remembered {b : Bool} (h : Trace p o b s s') :
    ∀ entry ∈ s'.globalCache, entry ∈ s.globalCache ∨ entry.2.Fits o.wordSize := by
  induction h with
  | refl s => exact fun _ => .inl
  | step h => cases h <;> exact fun _ => .inl
  | trans _ _ ih ih' =>
    intro entry hentry
    rcases ih' entry hentry with h | h
    · exact ih entry h
    · exact .inr h
  | template _ _ ih => exact ih
  | @global s s' n id v c _ _ _ hrun _ ih =>
    have hcache : (s'.heard s b).globalCache = s'.globalCache := by cases b <;> rfl
    have hcompute : Leads .any (envAt p o n (c.openGlobal id)) s (computeGlobal (p.global id).decl)
        fun w _ => w.Fits o.wordSize := fits_computeGlobal _
    intro entry hentry
    rw [State.rememberGlobal, hcache] at hentry
    rcases List.mem_cons.mp hentry with rfl | hentry
    · right
      split
      · exact fits_of_unknown rfl
      · exact hcompute hrun trivial
    · exact ih entry hentry

/-- Resolution and evaluation store nothing that does not fit. -/
theorem Stored.trace {b : Bool} (hs : Stored o.wordSize p s) (h : Trace p o b s s') :
    Stored o.wordSize p s' where
  vars var hvar := by
    have hbare : var.bare ∈ s.scopes.vars.map Var.bare := by
      rw [← h.vars]
      exact Array.mem_map_of_mem hvar
    obtain ⟨var0, hvar0, he⟩ := Array.mem_map.mp hbare
    have htype : var0.type = var.type :=
      show var0.bare.type = var.bare.type from congrArg Var.type he
    have hconstant : var0.constant = var.constant :=
      show var0.bare.constant = var.bare.constant from congrArg Var.constant he
    rw [← htype, ← hconstant]
    exact hs.vars var0 hvar0
  globals := hs.globals
  remembered entry hentry := (h.remembered entry hentry).elim (hs.remembered entry) id

end Globals

/-! ## Forms without operators -/

/-- The number that a check answers fits its type. -/
abbrev Fit (env : Env) (s : State) (x : Check Value) : Prop :=
  Leads .any env s x fun v _ => v.Fits .w64

theorem Leads.unknown {env : Env} {s : State} {v : Value} (h : v.constant = none) :
    Fit env s (Pure.pure v) :=
  .pure (fits_of_unknown h)

section Forms

variable {env : Env} {s : State}

theorem fits_typeValue (name : Ident) (generics : List TypeExpr) (span : Span) :
    Fit env s (typeValue name generics span) := by
  refine .after fun r s1 _ => ?_
  cases r with
  | some t => exact .unknown rfl
  | none => exact .unknown rfl

theorem fits_instanceValue (name : Ident) (generics : List TypeExpr) (span : Span) :
    Fit env s (instanceValue name generics span) := by
  refine .package ?_
  split
  · split
    · exact .after fun _ _ _ => .unknown rfl
    · refine .after fun types s1 _ => ?_
      cases types with
      | none => exact .unknown rfl
      | some types => exact .after fun _ _ _ => .after fun _ _ _ => .unknown rfl
  · exact fits_typeValue name generics span

theorem fits_structLiteral (name : Ident) (generics : List TypeExpr) (args : List Syntax.Arg)
    (span : Span) :
    Fit env s (structLiteral name generics args span) := by
  refine .after fun r s1 _ => ?_
  cases r with
  | none => exact .unknown rfl
  | some t =>
    dsimp only
    split
    · exact .after fun _ _ _ => .unknown rfl
    · exact .after fun _ _ _ => .after fun _ _ _ => .unknown rfl

theorem fits_arrayLiteral (elements : List Expr) (hint : Option Ty) (span : Span) :
    Fit env s (arrayLiteral elements hint span) := by
  refine .after fun elem s1 _ => ?_
  dsimp only
  split
  · split
    · exact .after fun _ _ _ => .unknown rfl
    · exact .unknown rfl
  · exact .unknown rfl

theorem fits_inferCall (id : FuncId) (owner : List Ty) (args : List Syntax.Arg) (span : Span) :
    Fit env s (inferCall id owner args span) := by
  refine .package (.after fun template s1 _ => ?_)
  split
  · exact .after fun _ _ _ => .unknown rfl
  · refine .after fun inferred s2 _ => .after fun _ s3 _ => ?_
    split
    · exact .after fun _ _ _ => .unknown rfl
    · exact .after fun _ _ _ => .after fun _ _ _ => .after fun _ _ _ => .unknown rfl

theorem fits_call (f : Expr) (args : List Syntax.Arg) (span : Span) :
    Fit env s (call f args span) := by
  refine .after fun callee s1 _ => ?_
  split
  · exact .unknown rfl
  · exact fits_inferCall _ _ _ _
  · split
    · exact .after fun _ _ _ => .after fun _ _ _ => .unknown rfl
    · exact .after fun _ _ _ => .unknown rfl

theorem fits_strayRest (operand : Expr) (span : Span) :
    Fit env s (strayRest operand span) :=
  .after fun _ _ _ => .after fun _ _ _ => .unknown rfl

/-! ### Members and elements -/

/-- The constant of a member that is a value fits. -/
def FitMember (m : Option Member) : Prop := ∀ v, m = some (.value v) → v.Fits .w64

theorem fitMember_value {v : Value} (hv : v.Fits .w64) : FitMember (some (.value v)) := by
  rintro _ ⟨⟩
  exact hv

theorem fits_noMember (name : Ident) :
    Leads .any env s (noMember name) fun m _ => FitMember m :=
  .after fun _ _ _ => .pure nofun

theorem category_of_enum? {id : EnumId} : ∀ {t : Ty}, t.enum? = some id → t.category = .enum
  | .pointer t, h => category_of_enum? (t := t) h
  | .reference t, h => category_of_enum? (t := t) h
  | .enum _ _, _ => rfl

theorem fits_typeMember (t : Ty) (name : Ident) :
    Leads .any env s (typeMember t name) fun m _ => FitMember m := by
  refine .package ?_
  split
  next id hid =>
    have henum : t.category.isInteger = false := by
      rw [category_of_enum? hid]
      rfl
    split
    · exact .pure (fitMember_value fun _ _ => Const.fits_of_not_integer henum)
    · exact fits_noMember name
  next =>
    split
    · split
      · split
        · exact .pure fun _ h => by cases h
        · exact fits_noMember name
      · exact fits_noMember name
    · exact fits_noMember name

theorem fits_lengthOf (constant : Option Const) (t : Ty) : (lengthOf constant t).Fits .w64 := by
  intro k hk _ _ x hx
  have hword : ∃ n : Int64, k = .int n := by
    unfold lengthOf at hk
    dsimp only at hk
    split at hk
    · cases hk
      exact ⟨_, rfl⟩
    · split at hk
      · obtain ⟨n, -, rfl⟩ := Option.map_eq_some_iff.mp hk
        exact ⟨_, rfl⟩
      · cases hk
  obtain ⟨n, rfl⟩ := hword
  cases hx
  exact Category.holds_toInt rfl rfl n

theorem fits_structMember (id : StructId) (types : List Ty) (isLvalue mutable : Bool)
    (name : Ident) :
    Leads .any env s (structMember id types isLvalue mutable name) fun m _ => FitMember m := by
  refine .package (.after fun fields s1 _ => ?_)
  split
  · refine .pure (fitMember_value ?_)
    split
    · exact fits_of_unknown rfl
    · exact fits_of_unknown rfl
  · split
    · split
      · exact .pure nofun
      · exact fits_noMember name
    · exact fits_noMember name

theorem fits_traitMember (id : TraitId) (name : Ident) :
    Leads .any env s (traitMember id name) fun m _ => FitMember m := by
  refine .package ?_
  split
  · exact .pure (fitMember_value (fits_of_unknown rfl))
  · exact fits_noMember name

theorem fits_valueMember (base : Value) (name : Ident) (span : Span) :
    Leads .any env s (valueMember base name span) fun m _ => FitMember m := by
  unfold valueMember
  extract_lets through t rest
  have hrest : ∀ u s, Leads .any env s (rest u) fun m _ => FitMember m := by
    intro u s
    dsimp only [rest]
    split
    · exact .pure (fitMember_value (fits_lengthOf _ _))
    · split
      · exact fits_structMember _ _ _ _ _
      · split
        · exact fits_traitMember _ _
        · exact fits_noMember name
      · exact fits_noMember name
  split
  · exact .after fun u s1 _ => hrest u s1
  · exact hrest () s

theorem fits_fieldValue (base : Expr) (name : Ident) (span : Span) :
    Fit env s (fieldValue base name span) := by
  refine .after fun b s1 _ => ?_
  split
  · exact .unknown rfl
  · have hmember : Leads .any env s1 (member b name span) fun m _ => FitMember m := by
      unfold member
      split
      · exact fits_typeMember _ _
      · exact fits_valueMember _ _ _
    refine .bind hmember fun m s2 _ hm => ?_
    split
    · exact .unknown rfl
    · exact .pure (hm _ rfl)
    · exact .package (.after fun _ _ _ => .unknown rfl)

theorem fits_byteAt (text index : Option Const) (span : Span) :
    Fit env s (byteAt text index span) := by
  unfold byteAt
  split
  · split
    next b _ =>
      refine .pure fun k hk _ _ x hx => ?_
      cases hk
      cases hx
      have hlt := b.toNat_lt
      rw [UInt8.toNat_toUInt64]
      show (0 : Int) ≤ b.toNat ∧ (b.toNat : Int) ≤ 255
      omega
    next => exact .after fun _ _ _ => .unknown rfl
  · exact .unknown rfl

theorem fits_element (base i : Value) (indexSpan span : Span) :
    Fit env s (element base i indexSpan span) := by
  unfold element
  extract_lets t mutable
  split
  · exact .after fun _ _ _ => .after fun _ _ _ => .unknown rfl
  split
  · refine .after fun ok s1 _ => ?_
    split
    · split
      · split
        · exact .after fun _ _ _ => .unknown rfl
        · exact .unknown rfl
      · exact .unknown rfl
    · exact .unknown rfl
  split
  · split
    · exact .after fun _ _ _ => .unknown rfl
    · exact .unknown rfl
  split
  · refine .after fun ok s1 _ => ?_
    split
    · exact fits_byteAt _ _ _
    · exact .unknown rfl
  · exact .after fun _ _ _ => .unknown rfl

theorem fits_subscript (base index : Expr) (span : Span) :
    Fit env s (subscript base index span) := by
  refine .after fun b s1 _ => .after fun i s2 _ => ?_
  split
  · exact .unknown rfl
  · exact fits_element _ _ _ _

end Forms

/-! ### Names -/

section Names

variable {p : Package} {o : Options} {n : Nat} {c : Context} {s : State}

theorem fits_useVar (hs : Stored .w64 p s) (hw : o.wordSize = .w64) (id : VarId) :
    Fit (envAt p o n c) s (useVar id) := by
  have hused : Stored .w64 p
      { s with scopes := s.scopes.modifyVar id fun v => { v with used := true } } := by
    rw [← hw] at hs ⊢
    exact hs.trace (b := true) (.step (.useVar id))
  refine .bind (M := fun _ s' => Stored .w64 p s') (leads_update hused) fun _ s1 _ hs1 =>
    .state ?_
  split
  next var hvar => exact .pure (hs1.vars var (Array.mem_of_getElem? hvar))
  next => exact .unknown rfl

theorem fits_globalValue (hs : Stored .w64 p s) (hw : o.wordSize = .w64) (id : GlobalId) :
    Fit (envAt p o n c) s (globalValue id) := by
  intro v s' hrun _
  cases globalRun_of_run hrun with
  | valued h => exact hs.globals id v h
  | cyclic | cycle => exact fits_of_unknown rfl
  | answered _ _ h =>
    obtain ⟨_, _, he, -⟩ := List.lookup_eq_some_iff.mp h
    exact hs.remembered (id, v) (by simp [he])
  | @computed v s1 _ _ hcomputed =>
    have hcompute : Leads .any (envAt p o n (c.openGlobal id)) s (computeGlobal (p.global id).decl)
        fun w _ => w.Fits o.wordSize := fits_computeGlobal _
    split
    · exact fits_of_unknown rfl
    · exact hw ▸ hcompute hcomputed trivial

theorem fits_definedValue (hs : Stored .w64 p s) (hw : o.wordSize = .w64) (name : Ident) :
    Fit (envAt p o n c) s (definedValue name) := by
  refine .package ?_
  split
  · exact .bind (fits_globalValue hs hw _) fun v s1 _ hv => .after fun _ _ _ => .pure hv
  · exact .unknown rfl
  · exact fits_typeValue _ _ _
  · exact .after fun _ _ _ => .unknown rfl

theorem fits_identValue (hs : Stored .w64 p s) (hw : o.wordSize = .w64) (name : Ident) :
    Fit (envAt p o n c) s (identValue name) := by
  refine .after fun found s1 hfound => ?_
  obtain ⟨rfl, -⟩ := run_lookupVar hfound
  split
  · exact .bind (fits_useVar hs hw _) fun v s2 _ hv => .after fun _ _ _ => .pure hv
  · split
    · exact .unknown rfl
    · exact fits_definedValue hs hw name

end Names

/-! ## Expressions -/

theorem fits_literal (l : Syntax.Literal) : (literal l).Fits .w64 := by
  cases l with
  | int n =>
    show Value.Fits .w64 (if n.toNat < Nat.pow 2 63 then _ else _)
    split
    · intro k hk _ _ x hx
      cases hk
      cases hx
      exact Category.holds_toInt rfl rfl _
    · intro k hk _ _ x hx
      cases hk
      cases hx
      exact Category.holds_toNat rfl rfl _
  | rune a =>
    intro k hk _ _ x hx
    cases hk
    cases hx
    have hvalid : a.toNat < 0xd800 ∨ 0xdfff < a.toNat ∧ a.toNat < 0x110000 := a.valid
    rw [Int64.toInt_ofNat_of_lt (by omega)]
    exact Category.holds_i32.mpr (by omega)
  | float y | text y | bool y =>
    intro k hk _ _ x hx
    cases hk
    cases hx
  | nil => exact fits_of_unknown rfl

/-- An integer type is the only one of its kind. -/
theorem eq_of_same {a b : Ty} (h : (a == b) = true) (hpure : b.isPure = true)
    (hinteger : b.category.isInteger = true) : a = b := by
  obtain ⟨hcategory, hkind⟩ : a.category = b.category ∧ a.kind = b.kind := by
    simpa [BEq.beq, Ty.same] using h
  have hbase : b = .base b.category := by
    cases b with
    | base c => rfl
    | pointer t => cases hpure
    | reference t => cases hpure
    | _ => cases hinteger
  -- The names of integers begin with a letter, and those of pointers and references do not.
  have hletter :
      b.category.name.toList.head? = some 'i' ∨ b.category.name.toList.head? = some 'u' := by
    revert hinteger
    cases b.category <;> decide
  rw [hbase] at hcategory hkind ⊢
  cases a with
  | base c => rw [show c = b.category from hcategory]
  | pointer t =>
    have hhead := congrArg (·.toList.head?) (show "*" ++ t.kind = b.category.name from hkind)
    simp only [String.toList_append] at hhead
    rcases hletter with h | h <;> rw [h] at hhead <;> cases hhead
  | reference t =>
    have hhead := congrArg (·.toList.head?) (show "&" ++ t.kind = b.category.name from hkind)
    simp only [String.toList_append] at hhead
    rcases hletter with h | h <;> rw [h] at hhead <;> cases hhead
  | _ =>
    replace hcategory : _ = b.category := hcategory
    rw [← hcategory] at hinteger
    cases hinteger

/-- Evaluation of the expression from the state may leave the range of a type. -/
inductive Strays (p : Package) (o : Options) (c : Context) : State → Expr → Prop
  /-- An operator on runes keeps their type. -/
  | runes {s s1 s2 op l r span n u v} (hl : Check.run p o n c (eval l none) s = some (u, s1))
      (hr : Check.run p o n c (eval r none) s1 = some (v, s2))
      (h : u.isRune = true ∨ v.isRune = true) : Strays p o c s (.binary op l r span)
  /-- A negation or complement for which the type of the operand may be too narrow. -/
  | slips {s s1 op e span n hint v} (hrun : Check.run p o n c (eval e hint) s = some (v, s1))
      (h : Slips o.wordSize op v) : Strays p o c s (.unary op e span)
  | operand {s op e span} (h : Strays p o c s e) : Strays p o c s (.unary op e span)
  /-- A cast to the type that the operand has. -/
  | cast {s s1 s2 e t span n v} (ht : Check.run p o n c (resolve t) s = some (some v.type, s1))
      (hrun : Check.run p o n c (eval e none) s1 = some (v, s2)) (h : Strays p o c s1 e) :
      Strays p o c s (.cast e t span)

section Expressions

variable {p : Package} {o : Options} {n : Nat} {c : Context} {s : State} {e : Expr}
  {hint : Option Ty}

theorem fits_binary {op : BinOp} {l r : Expr} {span : Span}
    (hstray : ¬ Strays p o c s (.binary op l r span)) :
    Fit (envAt p o n c) s (binary op l r span) := by
  refine .after fun u s1 hu => .after fun v s2 hv => ?_
  split
  · exact .unknown rfl
  · have hrunes : u.isRune = false ∧ v.isRune = false := by
      rw [← Bool.not_eq_true, ← Bool.not_eq_true, ← not_or]
      exact fun h => hstray (.runes hu hv h)
    intro w s3 hrun _
    cases hrun
    exact Operator.fits_settle hrunes.1 hrunes.2

theorem fits_unary (hw : o.wordSize = .w64) {op : UnOp} {span : Span}
    (hstray : ¬ Strays p o c s (.unary op e span))
    (h : ∀ hint, Fit (envAt p o n c) s (eval e hint)) :
    Fit (envAt p o n c) s (unary op e hint span) := by
  refine .after fun v s1 hv => ?_
  have hfits := h _ hv trivial
  have hslip : ¬ Slips .w64 op v := fun hslip => hstray (.slips hv (hw ▸ hslip))
  split
  · exact .unknown rfl
  · split
    next w hw =>
      have hresult := hfits.unary hw hslip
      split
      · exact .after fun _ _ _ => .pure hresult
      · exact .pure hresult
    next => exact .after fun _ _ _ => .unknown rfl

theorem fits_cast (hw : o.wordSize = .w64) (hs : Stored .w64 p s) {t : TypeExpr} {span : Span}
    (hstray : ¬ Strays p o c s (.cast e t span))
    (h : ∀ {s}, Stored .w64 p s → ¬ Strays p o c s e →
      Fit (envAt p o n c) s (eval e none)) :
    Fit (envAt p o n c) s (cast e t span) := by
  refine .after fun resolved s1 ht => .after fun v s2 hv => ?_
  have hs1 : Stored .w64 p s1 := by
    rw [← hw] at hs ⊢
    exact hs.trace ((level_of_ran Ran.trace n).resolve ht)
  cases resolved with
  | none => exact .unknown rfl
  | some u =>
    dsimp only
    split
    · exact .unknown rfl
    split
    next hsame =>
      refine .pure fun k hk hpure hinteger => ?_
      rcases Bool.or_eq_true_iff.mp hsame with hsame | hany
      · have htype : v.type = u := eq_of_same hsame hpure hinteger
        subst htype
        have hfits := h hs1 (fun hstray' => hstray (.cast ht hv hstray')) hv trivial
        exact hfits k hk hpure hinteger
      · unfold Ty.isAny at hany
        split at hany
        · cases hinteger
        · cases hany
    refine .package ?_
    split
    · split
      · refine .bind (M := fun (k : Option Const) _ => ∀ c ∈ k, Const.Fits .w64 u c)
          (hw ▸ leads_pin v.constant u) fun k s3 _ hk => ?_
        exact .pure hk
      · exact .after fun k s3 hk => by
          cases hk
          exact .unknown rfl
    · exact .after fun _ _ _ => .unknown rfl

/-- One level: the constant of an expression fits if the constants of its parts do. -/
theorem fits_exprValue (hw : o.wordSize = .w64) (hs : Stored .w64 p s) (hstray : ¬ Strays p o c s e)
    (h : ∀ {s e hint}, Stored .w64 p s → ¬ Strays p o c s e →
      Fit (envAt p o n c) s (eval e hint)) :
    Fit (envAt p o n c) s (exprValue e hint) := by
  cases e with
  | literal l => exact .pure (fits_literal l)
  | ident name => exact fits_identValue hs hw name
  | generic name generics span => exact fits_instanceValue name generics span
  | binary op l r span => exact fits_binary hstray
  | unary op e span => exact fits_unary hw hstray fun _ => h hs fun h => hstray (.operand h)
  | call f args span => exact fits_call f args span
  | field base name span => exact fits_fieldValue base name span
  | index base i span => exact fits_subscript base i span
  | structLit name generics args span => exact fits_structLiteral name generics args span
  | array elements span => exact fits_arrayLiteral elements hint span
  | cast e t span => exact fits_cast hw hs hstray h
  | spread e span => exact fits_strayRest e span

theorem fits_eval (hw : o.wordSize = .w64) (hs : Stored .w64 p s) (hstray : ¬ Strays p o c s e) :
    Fit (envAt p o n c) s (eval e hint) := by
  induction n generalizing s e hint with
  | zero => exact .after fun v s1 hrun => nomatch hrun
  | succ n ih =>
    have hvalue : Fit (envAt p o (n + 1) c) s (evalAny e hint) :=
      .bind (fits_exprValue hw hs hstray ih) fun v s1 _ hv => .after fun _ _ _ => .pure hv
    refine .bind hvalue fun v s1 _ hv => ?_
    split
    · exact .after fun _ _ _ => .unknown rfl
    · exact .pure hv

/-- With words of 64 bits and numbers in variables and globals that fit their types, a
number of an integer type that an expression evaluates to lies in the range of the type,
unless it comes from an operator on runes or from the negation or complement of a number
whose type is too narrow. -/
theorem constant_in_range {v : Value} {s' : State} {k : Const} {x : Int}
    (hw : o.wordSize = .w64) (hs : Stored .w64 p s)
    (hrun : Check.run p o n c (eval e hint) s = some (v, s')) (hstray : ¬ Strays p o c s e)
    (hpure : v.type.isPure = true) (hinteger : v.type.category.isInteger = true)
    (hk : v.constant = some k) (hx : k.number? = some x) : v.type.category.Holds .w64 x :=
  fits_eval hw hs hstray hrun trivial k hk hpure hinteger x hx

end Expressions

/-- The global `a`. -/
def byteGlobal : Package :=
  (Package.collect [[.global ⟨⟨"a", ⟨6, 7, 0⟩⟩, true, false, none, .literal (.int 200) ⟨10, 13, 0⟩,
    ⟨0, 13, 0⟩⟩]]).package

/-- `a` is the byte 200. -/
def byteState : State :=
  { globalCache := [(0, { type := .base .u8, constant := some (.uint 200) })] }

/-- `-(100 + a)` -/
def negatedSum : Expr :=
  .unary .neg (.binary .add (.literal (.int 100) ⟨2, 5, 0⟩) (.ident ⟨"a", ⟨8, 9, 0⟩⟩)
    ⟨2, 9, 0⟩) ⟨0, 10, 0⟩

theorem stored_byteState : Stored .w64 byteGlobal byteState where
  vars _ hvar := nomatch hvar
  globals
    | 0, _, hv => nomatch hv
    | _ + 1, _, hv => nomatch hv
  remembered := by
    rintro _ (_ | ⟨_, ⟨⟩⟩) k ⟨⟩ _ _ x ⟨⟩
    decide

theorem not_strays_negatedSum : ¬ Strays byteGlobal {} {} byteState negatedSum := by
  intro h
  cases h with
  | @slips _ s1 _ _ _ n hint v hrun h =>
    rcases n with _ | _ | n
    · cases hrun
    · cases hrun
    · cases hrun
      cases h with
      | unsigned hop h hnarrow => cases h
      | least hk h hnarrow =>
        cases hk
        exact absurd (show some (300 : Int) = some (-32768) from h) (by decide)
      | sort hop hk h =>
        cases hk
        exact h rfl
  | operand h =>
    cases h with
    | @runes _ s1 s2 _ _ _ _ n u v hl hr h =>
      cases n with
      | zero => cases hl
      | succ n =>
        cases hl
        cases hr
        exact h.elim nofun nofun

theorem constant_in_range_negatedSum : ∃ v s' x,
    Stored .w64 byteGlobal byteState ∧
    Check.run byteGlobal {} 3 {} (eval negatedSum none) byteState = some (v, s') ∧
    ¬ Strays byteGlobal {} {} byteState negatedSum ∧
    v.type = .base .i16 ∧ v.constant = some (.int x) ∧ x.toInt = -300 ∧
    Category.Holds .w64 .i16 x.toInt := by
  obtain ⟨v, s', x, hrun, htype, hk, hx⟩ : ∃ v s' x,
      Check.run byteGlobal {} 3 {} (eval negatedSum none) byteState = some (v, s') ∧
      v.type = .base .i16 ∧ v.constant = some (.int x) ∧ x.toInt = -300 :=
    ⟨_, _, _, rfl, rfl, rfl, by decide⟩
  have hholds := constant_in_range rfl stored_byteState hrun not_strays_negatedSum
    (by rw [htype]; rfl) (by rw [htype]; rfl) hk rfl
  rw [htype] at hholds
  exact ⟨v, s', x, stored_byteState, hrun, not_strays_negatedSum, htype, hk, hx, hholds⟩

/-- `'a' * 'a' * 'a' * 'a' * 'a'` -/
def runePower : Expr :=
  let rune : Expr := .literal (.rune 'a') ⟨0, 3, 0⟩
  let times (l : Expr) : Expr := .binary .mul l rune ⟨0, 3, 0⟩
  times (times (times (times rune)))

theorem runePower_out_of_range : Stored .w64 byteGlobal byteState ∧ ∃ v s' x,
    Check.run byteGlobal {} 6 {} (eval runePower none) byteState = some (v, s') ∧
    v.type = .base .i32 ∧ v.constant = some (.int x) ∧ x.toInt = 8587340257 ∧
    ¬ Category.Holds .w64 .i32 x.toInt :=
  ⟨stored_byteState, _, _, _, rfl, rfl, rfl, by decide, by decide⟩

end Check

end JaneCheck
