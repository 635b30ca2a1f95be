import JaneCheck.Proofs.Folding
import JaneCheck.Proofs.Replay

/-!
# The type of a tree of variables

An operator on two integers has the type of the operand that outranks the other, the
left one in doubt. Among signed types of fixed width `i8` and `i16` do not outrank each
other; otherwise a wider type outranks a narrower one, and so it is among the unsigned
ones. `Category.rank` numbers the ranks.

A tree of variables then has the first type of the highest rank among its leaves
(`highest`), whatever the grouping. That is the widest type, unless an `i8` stands first
and the widest type is `i16` (`widest_iff`): the tree is an `i8` then.
-/

namespace JaneCheck

open Syntax (Expr Ident)

namespace Category

/-- The unsigned categories of fixed width. -/
def fixedUnsigned : List Category := [.u8, .u16, .u32, .u64]

/-- The place of a category in the order of promotion. -/
def rank : Category → Nat
  | .i32 | .u16 => 1
  | .i64 | .u32 => 2
  | .u64 => 3
  | _ => 0

/-- The one of the higher rank, the left one in doubt. -/
def higher (a b : Category) : Category := if a.rank < b.rank then b else a

/-- The first one of the highest rank. -/
def highest : List Category → Category
  | [] => .void
  | [a] => a
  | a :: b :: cs => higher a (highest (b :: cs))

/-- An `i8` stands first, and an `i16` is the widest. -/
def Narrows (cs : List Category) : Prop :=
  cs.head? = some .i8 ∧ .i16 ∈ cs ∧ ∀ c ∈ cs, c = .i8 ∨ c = .i16

section Ranks

variable {a b c : Category} {cs ds : List Category}

theorem higher_assoc (a b c : Category) : higher (higher a b) c = higher a (higher b c) := by
  unfold higher
  by_cases hab : a.rank < b.rank <;> by_cases hbc : b.rank < c.rank <;>
    by_cases hac : a.rank < c.rank <;> simp only [hab, hbc, hac, if_true, if_false] <;> omega

theorem highest_cons (h : cs ≠ []) : highest (a :: cs) = higher a (highest cs) := by
  cases cs with
  | nil => exact absurd rfl h
  | cons b cs => rfl

theorem highest_append (hc : cs ≠ []) (hd : ds ≠ []) :
    highest (cs ++ ds) = higher (highest cs) (highest ds) := by
  induction cs with
  | nil => exact absurd rfl hc
  | cons a cs ih =>
    rw [List.cons_append, highest_cons (by simp [hd])]
    by_cases hcs : cs = []
    · subst hcs
      rfl
    · rw [ih hcs, highest_cons hcs, higher_assoc]

theorem highest_mem (h : cs ≠ []) : highest cs ∈ cs := by
  induction cs with
  | nil => exact absurd rfl h
  | cons a cs ih =>
    by_cases hcs : cs = []
    · subst hcs
      exact List.mem_singleton_self a
    · rw [highest_cons hcs, higher]
      split
      · exact List.mem_cons_of_mem a (ih hcs)
      · exact List.mem_cons_self

theorem rank_le_highest (h : c ∈ cs) : c.rank ≤ (highest cs).rank := by
  induction cs with
  | nil => cases h
  | cons a cs ih =>
    by_cases hcs : cs = []
    · subst hcs
      cases List.mem_singleton.mp h
      exact Nat.le_refl _
    · rw [highest_cons hcs, higher]
      rcases List.mem_cons.mp h with rfl | hc
      · split <;> omega
      · have hle := ih hc
        split <;> omega

theorem highest_eq_head (h : ∀ c ∈ cs, c.rank ≤ a.rank) : highest (a :: cs) = a := by
  by_cases hcs : cs = []
  · subst hcs
    rfl
  · have hle := h _ (highest_mem hcs)
    rw [highest_cons hcs, higher, if_neg (by omega)]

end Ranks

/-! ## Widths -/

section Widths

variable {F : List Category} {ws : WordSize} {a b c : Category} {cs ds : List Category}
  (hF : F = fixedSigned ∨ F = fixedUnsigned)

include hF

section Pairs

variable (ha : a ∈ F) (hb : b ∈ F)

include ha hb

theorem outranks_iff : outranks ws b a = true ↔ a.rank < b.rank := by
  have hall : ∀ a ∈ F, ∀ b ∈ F, outranks ws b a = true ↔ a.rank < b.rank := by
    rcases hF with rfl | rfl <;> cases ws <;> decide
  exact hall a ha b hb

theorem accepts_iff (ignoreAny : Bool) :
    accepts ws ignoreAny a b = true ↔ b.width ws ≤ a.width ws := by
  have hall : ∀ a ∈ F, ∀ b ∈ F, accepts ws ignoreAny a b = true ↔ b.width ws ≤ a.width ws := by
    rcases hF with rfl | rfl <;> cases ws <;> cases ignoreAny <;> decide
  exact hall a ha b hb

/-- Only an `i16` is wider than a type that it does not outrank. -/
theorem width_le_of_rank_le (h : b.rank ≤ a.rank) :
    b.width ws ≤ a.width ws ∨ a = .i8 ∧ b = .i16 := by
  have hall : ∀ a ∈ F, ∀ b ∈ F, b.rank ≤ a.rank →
      b.width ws ≤ a.width ws ∨ a = .i8 ∧ b = .i16 := by
    rcases hF with rfl | rfl <;> cases ws <;> decide
  exact hall a ha b hb h

theorem eq_of_width_eq (h : a.width ws = b.width ws) : a = b := by
  have hall : ∀ a ∈ F, ∀ b ∈ F, a.width ws = b.width ws → a = b := by
    rcases hF with rfl | rfl <;> cases ws <;> decide
  exact hall a ha b hb h

end Pairs

omit hF in
theorem eq_or_eq_of_rank_eq_zero : ∀ c ∈ fixedSigned, c.rank = 0 → c = .i8 ∨ c = .i16 := by
  decide

/-- The first type of the highest rank is the widest, unless the types narrow. -/
theorem widest_iff (hcs : ∀ c ∈ cs, c ∈ F) (hne : cs ≠ []) :
    (∀ c ∈ cs, c.width ws ≤ (highest cs).width ws) ↔ ¬ Narrows cs := by
  obtain ⟨a, rest, rfl⟩ := List.exists_cons_of_ne_nil hne
  constructor
  · rintro hwidest ⟨hhead, hlong, hlow⟩
    cases hhead
    have hflat : ∀ c ∈ rest, c.rank ≤ Category.i8.rank := by
      intro c hc
      rcases hlow c (List.mem_cons_of_mem _ hc) with rfl | rfl <;> decide
    have hwidth := hwidest _ hlong
    rw [highest_eq_head hflat] at hwidth
    revert hwidth
    cases ws <;> decide
  · intro hnarrows c hc
    have htop := highest_mem hne
    refine (width_le_of_rank_le hF (hcs _ htop) (hcs c hc) (rank_le_highest hc)).resolve_right ?_
    rintro ⟨hi8, rfl⟩
    apply hnarrows
    -- The highest rank is that of an `i8`, so all types are of the lowest and the first one stays.
    have hsigned : F = fixedSigned := by
      have hmem := hcs _ hc
      rcases hF with rfl | rfl
      · rfl
      · revert hmem
        decide
    subst hsigned
    have hflat : ∀ c ∈ a :: rest, c.rank = 0 := by
      intro c hc
      have hle := rank_le_highest hc
      rw [hi8] at hle
      exact Nat.le_zero.mp hle
    have hhead : highest (a :: rest) = a :=
      highest_eq_head fun c hc => by rw [hflat c (List.mem_cons_of_mem _ hc)]; exact Nat.zero_le _
    refine ⟨congrArg some (hhead.symm.trans hi8), hc, fun c hc => ?_⟩
    exact eq_or_eq_of_rank_eq_zero c (hcs c hc) (hflat c hc)

/-- Where the widest type is found its place does not matter. -/
theorem highest_perm (hcs : ∀ c ∈ cs, c ∈ F) (hne : cs ≠ []) (hperm : ds.Perm cs)
    (hc : ¬ Narrows cs) (hd : ¬ Narrows ds) : highest ds = highest cs := by
  have hne' : ds ≠ [] := fun h => hne (by simpa [h] using hperm.symm)
  have hds : ∀ d ∈ ds, d ∈ F := fun d hd => hcs d (hperm.mem_iff.mp hd)
  have hmem := highest_mem hne
  have hmem' := highest_mem hne'
  have hle : (highest ds).width .w64 ≤ (highest cs).width .w64 :=
    (widest_iff hF hcs hne).mpr hc _ (hperm.mem_iff.mp hmem')
  have hge : (highest cs).width .w64 ≤ (highest ds).width .w64 :=
    (widest_iff hF hds hne').mpr hd _ (hperm.mem_iff.mpr hmem)
  exact eq_of_width_eq hF (hds _ hmem') (hcs _ hmem) (Nat.le_antisymm hle hge)

end Widths

end Category

/-! ## Operators -/

section Operators

variable {F : List Category} {a b : Category}

open Category (fixedSigned fixedUnsigned)

theorem isInteger_of_fixed (hF : F = fixedSigned ∨ F = fixedUnsigned) (ha : a ∈ F) :
    a.isInteger = true := by
  have hall : ∀ a ∈ F, a.isInteger = true := by
    rcases hF with rfl | rfl <;> decide
  exact hall a ha

theorem isNumber_base (ha : a.isInteger = true) : (Ty.base a).isNumber = true := by
  revert ha
  cases a <;> decide

theorem Operator.promoted_fixed {s : Setting} (hF : F = fixedSigned ∨ F = fixedUnsigned)
    (ha : a ∈ F) (hb : b ∈ F) : promoted s (.base a) (.base b) = .base (Category.higher a b) := by
  show (if Category.outranks s.wordSize b a then Ty.base b else Ty.base a) = _
  unfold Category.higher
  by_cases h : a.rank < b.rank
  · rw [if_pos ((Category.outranks_iff hF ha hb).mpr h), if_pos h]
  · rw [if_neg (fun houtranks => h ((Category.outranks_iff hF ha hb).mp houtranks)), if_neg h]

/-- An operator on integers that are not known gives one of the promoted type. -/
theorem Operator.solve_unknown {s : Setting} {l r : Value} (op : WordOp) (hl : l.type = .base a)
    (hr : r.type = .base b) (ha : a.isInteger = true) (hb : b.isInteger = true)
    (hunknown : l.constant = none) :
    solve s l op.binOp r = (.ofType (promoted s (.base a) (.base b)), []) := by
  have hsorts : ∀ c : Category, c.isInteger = true → c.isFloat = false ∧ c.isNumeric = true := by
    intro c
    cases c <;> decide
  have hword : (op.binOp == .and || op.binOp == .or) = false := by cases op <;> rfl
  have harith : arithmetic l op.binOp r (promoted s (.base a) (.base b)) =
      ofType (promoted s (.base a) (.base b)) := by
    simp only [arithmetic, hunknown]
  have hoperate : operate s l op.binOp r = ofType (promoted s (.base a) (.base b)) := by
    rw [operate_numbers (by rw [hl]; exact isNumber_base ha) (by rw [hr]; exact isNumber_base hb)
      hword]
    simp only [hl, hr, Ty.category, hsorts a ha, hsorts b hb, Bool.or_self, Bool.false_eq_true,
      if_false, numbers, Bool.and_self, if_true]
    rw [← harith]
    cases op <;> rfl
  rw [solve, hoperate]
  simp only [settle, Value.isConst, hunknown, Option.isSome_none, Bool.not_false, Bool.or_true,
    Bool.true_or, if_true]
  rfl

/-- Of integers of one sort the wider one takes the narrower one. -/
theorem Compat.check_fixed (k : Compat) (hF : F = fixedSigned ∨ F = fixedUnsigned)
    (ha : a ∈ F) (hb : b ∈ F) :
    k.check (.base a) (.base b) = .compatible ↔ b.width k.wordSize ≤ a.width k.wordSize := by
  have hcheck : k.check (.base a) (.base b) =
      .ofBool (Category.accepts k.wordSize k.ignoreAny a b) := by
    have hall : ∀ c : Category, c.isInteger = true → (Ty.base c).isTrait = false ∧
        (Ty.base c).isNilCompatible = false ∧ (Ty.base c).isEnum = false ∧
        (Ty.base c).isStruct = false ∧ (Ty.base c).isTuple = false := by
      intro c
      cases c <;> decide
    obtain ⟨ha1, ha2, ha3, ha4, ha5⟩ := hall a (isInteger_of_fixed hF ha)
    obtain ⟨hb1, hb2, hb3, hb4, hb5⟩ := hall b (isInteger_of_fixed hF hb)
    simp [check, plain, ha1, ha2, ha3, ha4, ha5, hb1, hb2, hb3, hb4, hb5, Ty.isReference,
      Ty.isPointer, Ty.isSlice, Ty.isArray, Ty.isMap, Ty.category]
  rw [hcheck, ← Category.accepts_iff hF ha hb k.ignoreAny]
  cases Category.accepts k.wordSize k.ignoreAny a b <;> simp [Compatibility.ofBool]

end Operators

/-! ## Trees -/

/-- A tree of variables and operators on words. -/
inductive VarTree where
  | leaf (name : Ident)
  | node (op : WordOp) (left right : VarTree) (span : Span)

namespace VarTree

def expr : VarTree → Expr
  | .leaf name => .ident name
  | .node op l r span => .binary op.binOp l.expr r.expr span

/-- The variables from left to right. -/
def names : VarTree → List String
  | .leaf name => [name.name]
  | .node _ l r _ => l.names ++ r.names

def height : VarTree → Nat
  | .leaf _ => 1
  | .node _ l r _ => max l.height r.height + 1

theorem names_ne_nil (t : VarTree) : t.names ≠ [] := by
  induction t with
  | leaf name => simp [names]
  | node op l r span ihl ihr => simp [names, ihl]

end VarTree

namespace Check

open Category (fixedSigned fixedUnsigned highest highest_mem highest_append Narrows)

/-- A variable of a block or a global that has a base type and no known value. -/
inductive ReadsUnknown (p : Package) (c : Context) (s : State) (name : String) (x : Category) : Prop
  | var {b id var} (hblock : c.block = some b) (hid : s.scopes.lookup? b name = some id)
      (hvar : s.scopes.vars[id]? = some var) (htype : var.type = .base x)
      (hunknown : var.constant = none)
  | global {id v} (hblock : ∀ b ∈ c.block, s.scopes.lookup? b name = none)
      (hbuiltin : builtinFunc? name = none) (hid : p.lookup? name = some (.global id))
      (hv : (p.global id).value = some v ∨ (p.global id).value = none ∧
        id ∉ s.cyclicGlobals ∧ s.globalCache.lookup id = some v)
      (htype : v.type = .base x) (hunknown : v.constant = none) (hvalue : v.isType = false)

variable {p : Package} {o : Options} {n : Nat} {c : Context} {s s' : State} {hint : Option Ty}
  {name : String} {x : Category}

theorem ReadsUnknown.congr (h : ReadsUnknown p c s name x) (hview : s'.view = s.view) :
    ReadsUnknown p c s' name x := by
  obtain ⟨hscopes, -, -, -, -, hcache, hcyclic⟩ := State.view_eq_iff.mp hview
  cases h with
  | @var b id var hblock hid hvar htype hunknown =>
    have hbare : s'.scopes.bare.vars[id]? = some var.bare := by
      rw [hscopes, Scopes.getElem?_vars_bare, hvar]
      rfl
    rw [Scopes.getElem?_vars_bare] at hbare
    obtain ⟨var', hvar', he⟩ := Option.map_eq_some_iff.mp hbare
    have htype' : var'.bare.type = var.bare.type := by rw [he]
    have hconstant' : var'.bare.constant = var.bare.constant := by rw [he]
    exact .var hblock (by rw [State.lookup?_of_view hview, hid]) hvar' (htype'.trans htype)
      (hconstant'.trans hunknown)
  | global hblock hbuiltin hid hv htype hunknown hvalue =>
    refine .global (fun b hb => ?_) hbuiltin hid (by rw [hcyclic, hcache]; exact hv) htype hunknown
      hvalue
    rw [State.lookup?_of_view hview, hblock b hb]

/-- A value of a base type that is not known. Nothing is reported, and what answers depend
on is as before. -/
structure Unknown (s : State) (x : Category) (v : Value) (s' : State) : Prop where
  type : v.type = .base x
  constant : v.constant = none
  isValue : v.isType = false
  view : s'.view = s.view
  diags : s'.diags = s.diags

theorem gives_unknownVar {env : Env} {id : VarId} {var : Var} (hvar : s.scopes.vars[id]? = some var)
    (htype : var.type = .base x) (hunknown : var.constant = none) :
    Gives env s (useVar id) (Unknown s x) := by
  refine (gives_useVar id).mono ?_
  rintro _ _ ⟨rfl, rfl⟩
  rw [hvar]
  exact ⟨htype, hunknown, rfl, State.view_scopes rfl (s.scopes.bare_modifyVar id), rfl⟩

theorem gives_computedGlobal {id : GlobalId} {v : Value} {env : Env}
    (hv : (env.package.global id).value = some v ∨ (env.package.global id).value = none ∧
      id ∉ s.cyclicGlobals ∧ s.globalCache.lookup id = some v) :
    Gives env s (globalValue id) fun w s' => w = v ∧ s' = s := by
  refine .package (.state (.context ?_))
  rcases hv with hv | ⟨hnone, hacyclic, hcache⟩
  · rw [hv]
    exact .pure ⟨rfl, rfl⟩
  · have hcontains : ¬ s.cyclicGlobals.contains id = true :=
      fun h => hacyclic (List.contains_iff_mem.mp h)
    rw [hnone, hcache]
    rw [if_neg hcontains]
    exact .pure ⟨rfl, rfl⟩

theorem gives_countVoidRead {env : Env} {v : Value} (hv : v.type.isVoid = false) :
    Gives env s (countVoidRead v) fun _ s' => s' = s := by
  unfold countVoidRead
  rw [hv]
  exact .pure rfl

theorem ReadsUnknown.identValue {ident : Ident} {env : Env} (hx : x.isInteger = true)
    (h : ReadsUnknown env.package env.context s ident.name x) :
    Gives env s (identValue ident) (Unknown s x) := by
  have hvoid : (Ty.base x).isVoid = false := Ty.isVoid_of_isNumber (isNumber_base hx)
  -- A number is no void read.
  have hcount : ∀ {v : Value} {s' : State}, Unknown s x v s' →
      Gives env s' (do countVoidRead v; return v) (Unknown s x) := by
    intro v s' hv
    refine .bind (gives_countVoidRead (by rw [hv.type, hvoid])) fun _ s1 hs1 _ => ?_
    subst hs1
    exact .pure hv
  cases h with
  | @var b id var hblock hid hvar htype hunknown =>
    have hfound : some id = env.context.block.bind (s.scopes.lookup? · ident.name) := by
      rw [hblock, ← hid]
      rfl
    refine .bind (gives_lookupVar _) ?_
    rintro _ _ ⟨rfl, rfl⟩ _
    rw [← hfound]
    exact .bind (gives_unknownVar hvar htype hunknown) fun v s1 hv _ => hcount hv
  | @global id v hblock hbuiltin hid hv htype hunknown hvalue =>
    have hfound : none = env.context.block.bind (s.scopes.lookup? · ident.name) := by
      cases hb : env.context.block with
      | none => rfl
      | some b => exact (hblock b hb).symm
    refine .bind (gives_lookupVar _) ?_
    rintro _ _ ⟨rfl, rfl⟩ _
    rw [← hfound]
    rw [hbuiltin]
    refine .package ?_
    rw [hid]
    refine .bind (gives_computedGlobal hv) ?_
    rintro _ _ ⟨rfl, rfl⟩ _
    exact hcount ⟨htype, hunknown, hvalue, rfl, rfl⟩

/-- The type of a tree is the first one of the highest rank among those of its variables. -/
theorem gives_varTree {F : List Category} (hF : F = fixedSigned ∨ F = fixedUnsigned)
    {types : String → Category} (t : VarTree) (htypes : ∀ name ∈ t.names, types name ∈ F)
    (hreads : ∀ name ∈ t.names, ReadsUnknown p c s name (types name)) (hn : t.height ≤ n) :
    Gives (envAt p o n c) s (eval t.expr hint) (Unknown s (highest (t.names.map types))) := by
  induction t generalizing n s hint with
  | leaf name =>
    obtain ⟨n, rfl⟩ := Nat.exists_eq_add_of_le' hn
    have hmem : name.name ∈ (VarTree.leaf name).names := List.mem_singleton_self _
    have hread : ReadsUnknown (envAt p o n c).package (envAt p o n c).context s name.name _ :=
      hreads _ hmem
    refine .eval ((hread.identValue (isInteger_of_fixed hF (htypes _ hmem))).mono ?_)
    intro v s' hv
    exact ⟨hv.isValue, hv.type, hv.constant, hv.isValue, hv.view, hv.diags⟩
  | node op l r span ihl ihr =>
    obtain ⟨n, rfl⟩ := Nat.exists_eq_add_of_le' (Nat.le_trans (Nat.le_add_left 1 _) hn)
    have hheight : max l.height r.height ≤ n := Nat.le_of_succ_le_succ hn
    simp only [VarTree.names, List.forall_mem_append] at htypes hreads
    have hln : l.names.map types ≠ [] := by simpa using l.names_ne_nil
    have hrn : r.names.map types ≠ [] := by simpa using r.names_ne_nil
    have hlF : highest (l.names.map types) ∈ F :=
      List.forall_mem_map.mpr htypes.1 _ (highest_mem hln)
    have hrF : highest (r.names.map types) ∈ F :=
      List.forall_mem_map.mpr htypes.2 _ (highest_mem hrn)
    refine .eval ?_
    refine .bind (ihl htypes.1 hreads.1 (Nat.le_trans (Nat.le_max_left _ _) hheight))
      fun lv s1 hl _ => ?_
    -- The second operand is read where the first one was: nothing that is read has changed.
    refine .bind (ihr htypes.2 (fun name hname => (hreads.2 name hname).congr hl.view)
      (Nat.le_trans (Nat.le_max_right _ _) hheight)) fun rv s2 hr _ => ?_
    have hvoid : ∀ {y : Category}, y ∈ F → (Ty.base y).isVoid = false := fun hy =>
      Ty.isVoid_of_isNumber (isNumber_base (isInteger_of_fixed hF hy))
    rw [hl.type, hr.type, hvoid hlF, hvoid hrF]
    refine gives_solve (Operator.solve_unknown op hl.type hr.type (isInteger_of_fixed hF hlF)
      (isInteger_of_fixed hF hrF) hl.constant) ?_
    rw [Operator.promoted_fixed hF hlF hrF]
    refine ⟨rfl, ?_, rfl, rfl, hr.view.trans hl.view, ?_⟩
    · rw [VarTree.names, List.map_append, highest_append hln hrn]
      rfl
    · show s2.diags ++ ([] : List Diagnostic) = s.diags
      simp [hr.diags, hl.diags]

/-- Evaluation of a tree of variables that are not known, all of signed integer types of fixed
width or all of unsigned ones, ends and reports nothing. The tree has the first type of the
highest rank among those of its variables, however they are grouped. No variable is wider and
every variable is compatible with that type exactly if the types do not narrow. Then their
order does not matter either. -/
theorem eval_promotes {F : List Category} (hF : F = fixedSigned ∨ F = fixedUnsigned)
    (types : String → Category) (t : VarTree) (htypes : ∀ name ∈ t.names, types name ∈ F)
    (hreads : ∀ name ∈ t.names, ReadsUnknown p c s name (types name)) (hn : t.height ≤ n)
    (hint : Option Ty) :
    ∃ v s' top, Check.run p o n c (eval t.expr hint) s = some (v, s') ∧ s'.diags = s.diags ∧
      v.constant = none ∧ v.type = .base top ∧ top = highest (t.names.map types) ∧
      top ∈ t.names.map types ∧
      ((∀ name ∈ t.names, (types name).width o.wordSize ≤ top.width o.wordSize) ↔
        ¬ Narrows (t.names.map types)) ∧
      (∀ ignoreAny allowAssign, (∀ name ∈ t.names,
          Compat.check ⟨p.definitions, o.wordSize, ignoreAny, allowAssign⟩ v.type
            (.base (types name)) = .compatible) ↔ ¬ Narrows (t.names.map types)) ∧
      ∀ cs, cs.Perm (t.names.map types) → ¬ Narrows (t.names.map types) → ¬ Narrows cs →
        highest cs = top := by
  obtain ⟨v, s', hrun, hv⟩ : Gives (envAt p o n c) s (eval t.expr hint) _ :=
    gives_varTree hF t htypes hreads hn
  have hne : t.names.map types ≠ [] := by simpa using t.names_ne_nil
  have hleaves : ∀ x ∈ t.names.map types, x ∈ F := List.forall_mem_map.mpr htypes
  have hmem := highest_mem hne
  have hwidest : (∀ x ∈ t.names.map types, x.width o.wordSize ≤
      (highest (t.names.map types)).width o.wordSize) ↔ ¬ Narrows (t.names.map types) :=
    Category.widest_iff hF hleaves hne
  rw [List.forall_mem_map] at hwidest
  refine ⟨v, s', _, hrun, hv.diags, hv.constant, hv.type, rfl, hmem, hwidest, ?_, ?_⟩
  · intro ignoreAny allowAssign
    rw [← hwidest, hv.type]
    refine forall₂_congr fun name hname => ?_
    exact Compat.check_fixed _ hF (hleaves _ hmem) (htypes name hname)
  · intro cs hperm hc hd
    exact Category.highest_perm hF hleaves hne hperm hc hd

/-- The parameters `a : i8`, `b : i16` and `c : i32` of a function. -/
def threeWidths : State where
  scopes :=
    { blocks := #[{ parent := none, index := 0, isUnsafe := false, vars := [2, 1, 0] }]
      vars := #[{ name := "a", type := .base .i8, isParam := true, span := ⟨5, 6, 0⟩ },
        { name := "b", type := .base .i16, isParam := true, span := ⟨12, 13, 0⟩ },
        { name := "c", type := .base .i32, isParam := true, span := ⟨20, 21, 0⟩ }] }

/-- Their types. -/
def widthOf (name : String) : Category :=
  if name = "a" then .i8 else if name = "b" then .i16 else .i32

theorem reads_threeWidths :
    ∀ name ∈ ["a", "b", "c"], ReadsUnknown {} { block := some 0 } threeWidths name (widthOf name) := by
  have ha : threeWidths.scopes.lookup? 0 "a" = some 0 := by with_unfolding_all rfl
  have hb : threeWidths.scopes.lookup? 0 "b" = some 1 := by with_unfolding_all rfl
  have hc : threeWidths.scopes.lookup? 0 "c" = some 2 := by with_unfolding_all rfl
  simp only [List.forall_mem_cons, List.not_mem_nil, false_imp_iff, implies_true, and_true]
  exact ⟨.var rfl ha rfl rfl rfl, .var rfl hb rfl rfl rfl, .var rfl hc rfl rfl rfl⟩

/-- `(a - b) & c` -/
def maskedDifference : VarTree :=
  .node .bitAnd
    (.node .sub (.leaf ⟨"a", ⟨30, 31, 0⟩⟩) (.leaf ⟨"b", ⟨34, 35, 0⟩⟩) ⟨30, 35, 0⟩)
    (.leaf ⟨"c", ⟨39, 40, 0⟩⟩) ⟨29, 40, 0⟩

theorem eval_promotes_maskedDifference :
    (∀ name ∈ maskedDifference.names,
      ReadsUnknown {} { block := some 0 } threeWidths name (widthOf name)) ∧
    ¬ Narrows (maskedDifference.names.map widthOf) ∧
    ∃ v s', Check.run {} {} 3 { block := some 0 } (eval maskedDifference.expr none) threeWidths =
        some (v, s') ∧ s'.diags = #[] ∧ v.constant = none ∧ v.type = .base .i32 ∧
      ∀ name ∈ maskedDifference.names, (widthOf name).width .w64 ≤ 32 := by
  have hnarrows : ¬ Narrows (maskedDifference.names.map widthOf) := by
    rintro ⟨-, -, hlow⟩
    exact absurd (hlow .i32 (by decide)) (by decide)
  obtain ⟨v, s', top, hrun, hdiags, hconstant, htype, rfl, -, hwidest, -⟩ :=
    eval_promotes (o := {}) (n := 3) (.inl rfl) widthOf maskedDifference (by decide)
      reads_threeWidths (by decide) none
  exact ⟨reads_threeWidths, hnarrows, v, s', hrun, hdiags, hconstant, htype, hwidest.mpr hnarrows⟩

/-- `a + b` -/
def mixedSum : VarTree :=
  .node .add (.leaf ⟨"a", ⟨29, 30, 0⟩⟩) (.leaf ⟨"b", ⟨33, 34, 0⟩⟩) ⟨29, 34, 0⟩

theorem mixedSum_narrows : ∃ v s',
    Check.run {} {} 2 { block := some 0 } (eval mixedSum.expr none) threeWidths = some (v, s') ∧
    v.type = .base .i8 ∧ Category.i8.width .w64 < Category.i16.width .w64 ∧
    Compat.check ⟨({} : Package).definitions, .w64, false, true⟩ v.type (.base .i16) =
      .incompatible := by
  obtain ⟨v, s', hrun, hv⟩ : Gives (envAt {} {} 2 { block := some 0 }) threeWidths
      (eval mixedSum.expr none) _ :=
    gives_varTree (.inl rfl) mixedSum (by decide)
      (fun name hname => reads_threeWidths name (by revert name; decide)) (by decide)
  refine ⟨v, s', hrun, hv.type, by decide, ?_⟩
  rw [hv.type]
  rfl

end Check

end JaneCheck
