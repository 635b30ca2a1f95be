import JaneCheck.Assign
import JaneCheck.Call.Pairing

/-!
# What operators give

Whatever a binary operator gives is void with a problem, or a value whose type is
that of an operand, `bool`, `str` or a number. So types with a property that
operands and scalars have are not left (`within_solve`). An operator never gives a
type where a value is asked for, and its problems are those of operators.

Assignments and pairings of arguments give nothing but problems: those of storing
a value, and those of an argument that has no slot.
-/

namespace JaneCheck

/-- The categories of literals. -/
def Category.isScalar (c : Category) : Bool := c == .nil || c == .bool || c == .str || c.isNumeric

/-- An operator is not for its operands. -/
def Problem.ofOperator : Problem → Bool
  | .divideByZero | .operatorNotForType .. | .operatorNotForFloat _ | .operatorNotForInt _
  | .operatorNotForUint _ | .shiftMustBeUnsigned | .logicalNotBool | .incompatible .. => true
  | _ => false

namespace Operator

open Syntax (BinOp)

/-- The outcome has a type with `T`, denotes a value, and reports problems of operators. -/
structure Within (T : Ty → Prop) (o : Outcome) : Prop where
  type : T o.1.type
  isValue : o.1.isType = false
  problems : ∀ q ∈ o.2, q.ofOperator = true

/-- Scalars and void have the property. -/
structure Basic (T : Ty → Prop) : Prop where
  void : T .void
  scalar {c : Category} : c.isScalar = true → T (.base c)

section Outcomes

variable {T : Ty → Prop} {s : Setting} {l r : Value} {op : BinOp}

theorem within_accept {t : Ty} (ht : T t) (c : Option Const) :
    Within T (accept { Value.ofType t with constant := c }) :=
  ⟨ht, rfl, nofun⟩

theorem ofOperator_fold (a b : Const) : ∀ q ∈ (fold op a b).2, q.ofOperator = true := by
  unfold fold foldFloats foldSigned foldUnsigned
  repeat' split
  all_goals simp [Problem.ofOperator]

theorem within_arithmetic {t : Ty} (ht : T t) : Within T (arithmetic l op r t) := by
  unfold arithmetic
  split
  · exact ⟨ht, rfl, ofOperator_fold _ _⟩
  · exact within_accept ht none

theorem isScalar_ofShift (amount : Nat) : (Category.ofShift amount).isScalar = true := by
  unfold Category.ofShift
  repeat' split
  all_goals rfl

theorem of_promoted {a b : Ty} (ha : T a) (hb : T b) : T (promoted s a b) := by
  unfold promoted
  split
  · exact hb
  · exact ha

theorem of_quotientType {a b : Ty} (ha : T a) (hb : T b) : T (quotientType s a b) := by
  unfold quotientType
  split
  · exact of_promoted ha ha
  · exact of_promoted hb hb
  · exact of_promoted ha hb

theorem within_ite {b : Bool} {x y : Outcome} (hx : b = true → Within T x) (hy : Within T y) :
    Within T (if b then x else y) := by
  split
  next hb => exact hx hb
  next => exact hy

theorem of_asBase {v : Value} (hb : ∀ id ∈ v.type.enum?, T (s.defs.enumBase id)) (hv : T v.type) :
    T (asBase s v).type := by
  unfold asBase
  split
  next id hid => exact hb id hid
  next => exact hv

theorem Within.acyclic {o : Outcome} (h : Within T o) : ∀ q ∈ o.2, ∀ name, q ≠ .cycle name := by
  rintro q hq name rfl
  cases h.problems _ hq

variable (hT : Basic T)

include hT

theorem within_reject {q : Problem} (hq : q.ofOperator = true) :
    Within T (reject q) :=
  ⟨hT.void, rfl, fun q' hq' => by rw [List.mem_singleton.mp hq']; exact hq⟩

theorem within_incompatible (a b : Ty) : Within T (incompatible a b) :=
  within_reject hT rfl

theorem within_equalityOnly (type : String) : Within T (equalityOnly op type) := by
  unfold equalityOnly
  split
  · exact within_accept (hT.scalar rfl) none
  · exact within_accept (hT.scalar rfl) none
  · exact within_reject hT rfl

theorem within_logical : Within T (logical l op r) := by
  unfold logical
  split
  · exact within_accept (hT.scalar rfl) _
  · exact within_reject hT rfl

theorem within_functions : Within T (functions l op r) := by
  unfold functions
  split
  · exact within_incompatible hT _ _
  · exact within_equalityOnly hT _

theorem within_comparable : Within T (comparable s l op r) := by
  unfold comparable
  split
  · exact within_equalityOnly hT _
  · exact within_incompatible hT _ _

theorem within_pointers (hl : T l.type) (hr : T r.type) :
    Within T (pointers s l op r) := by
  have hside : T (if l.type.isPointer then l.type else r.type) := by
    split
    · exact hl
    · exact hr
  unfold pointers
  split
  · split
    · exact within_accept hside none
    · exact within_accept hside none
    · split
      · exact within_accept (hT.scalar rfl) none
      · exact within_reject hT rfl
  · exact within_incompatible hT _ _

theorem within_structs : Within T (structs l op r) := by
  unfold structs
  split
  · exact within_equalityOnly hT _
  · exact within_incompatible hT _ _

theorem within_nils : Within T (nils s l op r) := by
  unfold nils
  split
  · exact within_equalityOnly hT _
  · exact within_incompatible hT _ _

theorem within_booleans : Within T (booleans s l op r) := by
  have heq : Within T (equalityOnly op "bool") := within_equalityOnly hT _
  unfold booleans
  split
  · dsimp only
    split
    · exact heq
    · exact { heq with }
  · exact within_incompatible hT _ _

theorem within_texts : Within T (texts l op r) := by
  unfold texts
  split
  · extract_lets known
    split
    · exact within_accept (hT.scalar rfl) _
    · exact within_accept (hT.scalar rfl) _
    · exact within_accept (hT.scalar rfl) _
    · exact within_reject hT rfl
  · exact within_incompatible hT _ _

/-! ## Numbers -/

theorem within_comparison : Within T (comparison l op r) :=
  within_accept (hT.scalar rfl) _

theorem within_shift : Within T (shift l op r) := by
  have hproblems : ∀ q ∈ (if validAmount r then [] else [Problem.shiftMustBeUnsigned]),
      q.ofOperator = true := by
    split <;> simp [Problem.ofOperator]
  unfold shift
  extract_lets problems
  split
  · exact ⟨hT.scalar (isScalar_ofShift _), rfl, hproblems⟩
  · exact ⟨hT.scalar rfl, rfl, hproblems⟩

theorem within_numbers {signed : Bool} (hl : T l.type) (hr : T r.type) :
    Within T (numbers s signed l op r) := by
  have harith : Within T (arithmetic l op r (promoted s l.type r.type)) :=
    within_arithmetic (of_promoted hl hr)
  unfold numbers
  split
  · split
    all_goals first | exact harith | exact within_shift hT | skip
    split
    · exact within_comparison hT
    · cases signed <;> exact within_reject hT rfl
  · exact within_incompatible hT _ _

theorem within_floatMod (hl : T l.type) (hr : T r.type) :
    ∀ o ∈ floatMod s l r, Within T o := by
  have hnum : ∀ {a b : Value} {signed : Bool}, T a.type → T b.type →
      ∀ o ∈ some (numbers s signed a .mod b), Within T o := by
    rintro a b signed ha hb _ ⟨⟩
    exact within_numbers hT ha hb
  unfold floatMod
  split
  next a b hab =>
    have hsides : T a.type ∧ T b.type := by
      split at hab
      · cases hab; exact ⟨hl, hr⟩
      · cases hab; exact ⟨hr, hl⟩
    extract_lets fits
    repeat' split
    all_goals first | exact hnum hsides.1 hsides.2 | (rintro _ ⟨⟩)

theorem within_floats (hl : T l.type) (hr : T r.type) :
    Within T (floats s l op r) := by
  unfold floats
  split
  · split
    · exact within_arithmetic (of_promoted hl hr)
    · exact within_arithmetic (of_promoted hl hr)
    · exact within_arithmetic (of_promoted hl hr)
    · exact within_arithmetic (of_quotientType hl hr)
    · cases hm : floatMod s l r with
      | none => exact within_reject hT rfl
      | some o => exact within_floatMod hT hl hr o hm
    · split
      · exact within_comparison hT
      · exact within_reject hT rfl
  · exact within_incompatible hT _ _

/-! ## All domains -/

theorem within_dispatch {enums : Value → Value → Outcome} (hl : T l.type)
    (hr : T r.type)
    (he : (l.type.isEnum || r.type.isEnum) = true → Within T (enums l r)) :
    Within T (dispatch s enums l op r) := by
  have hnumbers : ∀ signed, Within T (numbers s signed l op r) := fun _ => within_numbers hT hl hr
  unfold dispatch
  extract_lets either isOf
  refine within_ite (fun _ => within_logical hT) (within_ite (fun _ => within_functions hT) ?_)
  refine within_ite (fun _ => within_comparable hT) (within_ite (fun _ => ?_) (within_ite he ?_))
  · exact within_pointers hT hl hr
  refine within_ite (fun _ => within_structs hT) (within_ite (fun _ => within_comparable hT) ?_)
  refine within_ite (fun _ => within_nils hT) (within_ite (fun _ => within_equalityOnly hT _) ?_)
  refine within_ite (fun _ => within_booleans hT) (within_ite (fun _ => within_texts hT) ?_)
  refine within_ite (fun _ => within_floats hT hl hr) (within_ite (fun _ => hnumbers _) ?_)
  exact within_ite (fun _ => hnumbers _) (within_incompatible hT _ _)

theorem within_operate (hl : T l.type) (hr : T r.type)
    (hb : (l.type.isEnum || r.type.isEnum) = true → ∀ id, T (s.defs.enumBase id)) :
    Within T (operate s l op r) := by
  unfold operate
  refine within_dispatch hT hl hr fun henum => ?_
  dsimp only
  split
  · exact within_incompatible hT _ _
  · exact within_dispatch hT (of_asBase (fun id _ => hb henum id) hl)
      (of_asBase (fun id _ => hb henum id) hr) fun _ => within_incompatible hT _ _

theorem of_narrowest {c : Const} {t : Ty} (h : narrowest? c = some t) : T t := by
  unfold narrowest? at h
  split at h <;> cases h <;> refine hT.scalar ?_
  · unfold Category.floatOfWidth
    split <;> rfl
  · unfold Category.signedOfWidth
    split <;> rfl
  · unfold Category.unsignedOfWidth
    split <;> rfl

theorem within_solve (hl : T l.type) (hr : T r.type)
    (hb : (l.type.isEnum || r.type.isEnum) = true → ∀ id, T (s.defs.enumBase id)) :
    Within T (solve s l op r) := by
  obtain ⟨htype, hvalue, hproblems⟩ : Within T (operate s l op r) := within_operate hT hl hr hb
  unfold solve
  refine ⟨?_, ?_, hproblems⟩
  · dsimp only
    unfold settle
    repeat' split
    all_goals first | exact htype | skip
    next ht => exact of_narrowest hT ht
  · dsimp only
    unfold settle
    repeat' split
    all_goals exact hvalue

end Outcomes

theorem ofOperator_solve (s : Setting) (l : Value) (op : BinOp) (r : Value) :
    ∀ q ∈ (solve s l op r).2, q.ofOperator = true :=
  (within_solve (T := fun _ => True) ⟨trivial, fun _ => trivial⟩ trivial trivial
    fun _ _ => trivial).problems

end Operator

/-! ## Assignments -/

/-- A value may not be stored. -/
def Problem.ofStorage : Problem → Bool
  | .methodAsValue | .genericFnAsValue | .overflow | .incompatible .. | .traitNeedsReference _ => true
  | _ => false

namespace Assign

variable {k : Assign}

theorem ofStorage_verdict {target given : Ty} {width : Nat} {parts : List Problem}
    (h : ∀ q ∈ parts, q.ofStorage = true) :
    ∀ q ∈ k.verdict target given width parts, q.ofStorage = true := by
  unfold verdict compatProblems mismatch
  repeat' split
  all_goals first | exact h | simp [Problem.ofStorage]

mutual

theorem ofStorage_coreProblems (target t given : Ty) :
    ∀ q ∈ k.coreProblems target t given, q.ofStorage = true := by
  cases t with
  | pointer t | reference t => exact ofStorage_coreProblems target t given
  | tuple ts => exact ofStorage_verdict (ofStorage_componentProblems ts given.components)
  | _ => exact ofStorage_verdict nofun

theorem ofStorage_componentProblems (ts gs : List Ty) :
    ∀ q ∈ k.componentProblems ts gs, q.ofStorage = true := by
  cases ts with
  | nil => exact nofun
  | cons t ts =>
    cases gs with
    | nil => exact nofun
    | cons g gs =>
      intro q hq
      rcases List.mem_append.mp hq with hq | hq
      · exact ofStorage_coreProblems t t g q hq
      · exact ofStorage_componentProblems ts gs q hq

end

theorem ofStorage_check (target : Ty) (v : Value) :
    ∀ q ∈ k.check target v, q.ofStorage = true := by
  unfold check
  split
  next q hq =>
    unfold notStorable? at hq
    split at hq
    · cases hq
    split at hq
    · cases hq
      simp [Problem.ofStorage]
    split at hq
    · cases hq
      simp [Problem.ofStorage]
    · cases hq
  · split
    · split <;> simp [Problem.ofStorage]
    · exact ofStorage_coreProblems _ _ _

end Assign

/-! ## Pairings -/

namespace Pairing

open Syntax (Arg)

/-- An argument has no slot: its name is not that of one, it needs a name, there are no more, or
the slot is taken. -/
inductive Refusal (arg : Arg) : Diagnostic → Prop
  | unknown {name} (h : arg.name = some name) : Refusal arg ⟨.unknownName name.name, name.span⟩
  | unnamed : Refusal arg ⟨.argumentNeedsTarget, arg.span⟩
  | surplus : Refusal arg ⟨.tooManyArguments, arg.span⟩
  | mixed : Refusal arg ⟨.mixedVariadic, arg.span⟩
  | taken {name} : Refusal arg ⟨.argumentTaken name, arg.span⟩

variable {slots : List Slot} {p : Progress} {arg : Arg} {d : Diagnostic}

theorem refusal_of_bindArg {slot : Slot} {current : Bound} {i : Nat} {q : Problem}
    (h : bindArg slot current i arg = .error q) : Refusal arg ⟨q, arg.span⟩ := by
  unfold bindArg at h
  dsimp only at h
  repeat' split at h
  all_goals first | (cases h; exact .mixed) | (cases h; exact .taken) | cases h

theorem refusal_of_target (h : target slots p arg = .skip d ∨ target slots p arg = .stop d) :
    Refusal arg d := by
  unfold target at h
  split at h
  next name hname =>
    split at h
    · rcases h with h | h <;> cases h
    · rcases h with h | h <;> cases h
      exact .unknown hname
  next =>
    split at h
    · rcases h with h | h <;> cases h
      exact .unnamed
    split at h
    · rcases h with h | h <;> cases h
    · rcases h with h | h <;> cases h
      exact .surplus

theorem mem_errors_put {index i : Nat} (h : d ∈ (put slots p index i arg).errors) :
    d ∈ p.errors ∨ Refusal arg d := by
  unfold put at h
  split at h
  next slot current _ _ =>
    extract_lets p' at h
    have hp' : p'.errors = p.errors := by
      unfold p'
      split <;> rfl
    split at h
    · exact .inl (hp' ▸ h)
    next q hq =>
      unfold refuse at h
      split at h
      · exact .inl (hp' ▸ h)
      · rcases List.mem_append.mp h with h | h
        · exact .inl (hp' ▸ h)
        · rw [List.mem_singleton.mp h]
          exact .inr (refusal_of_bindArg hq)
  · exact .inl h

/-- The errors that a walk adds refuse its arguments. -/
theorem mem_errors_walk {args : List Arg} {i : Nat} (h : d ∈ (walk slots args i p).errors) :
    d ∈ p.errors ∨ ∃ arg ∈ args, Refusal arg d := by
  induction args generalizing i p with
  | nil => exact .inl h
  | cons arg rest ih =>
    have hlater : (∃ a ∈ rest, Refusal a d) → ∃ a ∈ arg :: rest, Refusal a d :=
      fun ⟨a, ha, hd⟩ => ⟨a, List.mem_cons_of_mem _ ha, hd⟩
    have hadded {d' : Diagnostic} (hd : d ∈ p.errors ++ [d']) (h : Refusal arg d') :
        d ∈ p.errors ∨ ∃ a ∈ arg :: rest, Refusal a d := by
      rcases List.mem_append.mp hd with hd | hd
      · exact .inl hd
      · rw [List.mem_singleton.mp hd]
        exact .inr ⟨arg, List.mem_cons_self, h⟩
    unfold walk at h
    dsimp only at h
    split at h
    next index _ =>
      rcases ih h with h | h
      · rcases mem_errors_put h with h | h
        · exact .inl h
        · exact .inr ⟨arg, List.mem_cons_self, h⟩
      · exact .inr (hlater h)
    next d' ht =>
      rcases ih h with h | h
      · exact hadded h (refusal_of_target (.inl ht))
      · exact .inr (hlater h)
    next d' ht => exact hadded h (refusal_of_target (.inr ht))

end Pairing

theorem refusal_of_mem_pair {slots : List Slot} {args : List Syntax.Arg} {d : Diagnostic}
    (h : d ∈ (pair slots args).errors) : ∃ arg ∈ args, Pairing.Refusal arg d :=
  (Pairing.mem_errors_walk h).resolve_left nofun

end JaneCheck
