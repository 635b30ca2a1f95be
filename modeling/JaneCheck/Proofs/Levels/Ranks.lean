import JaneCheck.Proofs.Levels.Eval

/-!
# Levels that are enough

An alias or a global is not opened again while it is open, and parts are
smaller than the whole. Only templates can be opened inside each other without
end: every one adds a frame of bindings. `resolveNested` and `evalNested` open
at most `k` of them inside each other, and `rank` says how many levels that
takes. With as many levels they satisfy the equations of a recursion without
levels, so nothing else needs a bound.
-/

namespace JaneCheck.Check

open Syntax (Expr TypeExpr)

mutual

/-- Resolution with at most `k` templates open inside each other. -/
def resolveNested (package : Package) (options : Options) (k : Nat) :
    Nat → Context → TypeExpr → Step (Option Ty)
  | 0, _, _ => .tooDeep
  | n + 1, context, t =>
    if k < context.bindings.depth then .tooDeep
    else resolveStep t
      { package, options, context
        resolveIn := resolveNested package options k n
        evalIn := evalNested package options k n }

/-- Evaluation with at most `k` templates open inside each other. -/
def evalNested (package : Package) (options : Options) (k : Nat) :
    Nat → Context → Expr → Option Ty → Step Value
  | 0, _, _, _ => .tooDeep
  | n + 1, context, e, hint =>
    if k < context.bindings.depth then .tooDeep
    else evalStep e hint
      { package, options, context
        resolveIn := resolveNested package options k n
        evalIn := evalNested package options k n }

end

/-! ## Sizes of definitions -/

section Sizes

variable {p : Package} {t : TypeExpr}

theorem sizeOf_tables_lt (p : Package) : sizeOf p.aliases < sizeOf p ∧ sizeOf p.structs < sizeOf p ∧
    sizeOf p.funcs < sizeOf p ∧ sizeOf p.globals < sizeOf p := by
  cases p
  simp only [Package.mk.sizeOf_spec]
  omega

theorem sizeOf_alias_lt {id : AliasId} (h : id < p.aliases.size) :
    sizeOf (p.typeAlias id).decl.target < sizeOf p := by
  have hentry := Array.sizeOf_lt_of_mem (show p.typeAlias id ∈ p.aliases by simp [Package.typeAlias, h])
  have htables := sizeOf_tables_lt p
  rcases he : p.typeAlias id with ⟨_, _, ⟨_, _, _⟩, _⟩
  simp only [he, AliasInfo.mk.sizeOf_spec, Syntax.TypeAlias.mk.sizeOf_spec] at hentry ⊢
  omega

theorem sizeOf_global_lt {id : GlobalId} (h : id < p.globals.size) :
    sizeOf (p.global id).decl < sizeOf p := by
  have hentry := Array.sizeOf_lt_of_mem (show p.global id ∈ p.globals by simp [Package.global, h])
  have htables := sizeOf_tables_lt p
  rcases he : p.global id
  simp only [he, GlobalInfo.mk.sizeOf_spec] at hentry ⊢
  omega

theorem sizeOf_mem_fields {d : Syntax.StructDef} (h : t ∈ d.types) : sizeOf t < sizeOf d := by
  obtain ⟨⟨_, _, _, _⟩, hf, rfl⟩ := List.mem_map.mp h
  have hmem := List.sizeOf_lt_of_mem hf
  cases d
  simp only [Syntax.StructDef.mk.sizeOf_spec, Syntax.Field.mk.sizeOf_spec] at hmem ⊢
  omega

theorem sizeOf_mem_types {f : Syntax.Function} (h : t ∈ f.types) : sizeOf t < sizeOf f := by
  rcases f with ⟨_, _, _, _, _, ⟨_, _⟩, _⟩
  rcases List.mem_append.mp h with h | h
  · obtain ⟨q, hq, rfl⟩ := List.mem_map.mp h
    have hmem := List.sizeOf_lt_of_mem hq
    cases q
    simp only [Syntax.Function.mk.sizeOf_spec, Syntax.Param.mk.sizeOf_spec] at hmem ⊢
    omega
  · cases Option.mem_toList.mp h
    simp only [Syntax.Function.mk.sizeOf_spec, Syntax.ReturnType.mk.sizeOf_spec, Option.some.sizeOf_spec]
    omega

/-- The types of a template are smaller than the package. -/
theorem sizeOf_writes_lt (h : Writes p t) : sizeOf t < sizeOf p := by
  have htables := sizeOf_tables_lt p
  cases h with
  | func id h =>
    have htype := sizeOf_mem_types h
    by_cases hid : id < p.funcs.size
    · have hentry := Array.sizeOf_lt_of_mem (show p.func id ∈ p.funcs by simp [Package.func, hid])
      rcases he : p.func id
      simp only [he, FuncInfo.mk.sizeOf_spec] at hentry htype
      omega
    · rw [show p.func id = default by simp [Package.func, Nat.le_of_not_lt hid]] at h
      cases h
  | struct id h =>
    have htype := sizeOf_mem_fields h
    by_cases hid : id < p.structs.size
    · have hentry := Array.sizeOf_lt_of_mem (show p.struct id ∈ p.structs by simp [Package.struct, hid])
      rcases he : p.struct id
      simp only [he, StructInfo.mk.sizeOf_spec] at hentry htype
      omega
    · rw [show p.struct id = default by simp [Package.struct, Nat.le_of_not_lt hid]] at h
      cases h

end Sizes

/-! ## Ranks -/

/-- The number of those below `n` that are not on a path. -/
def notOn (path : List Nat) (n : Nat) : Nat := (List.range n).countP (!path.contains ·)

/-- The aliases and globals that are not open. -/
def closed (p : Package) (c : Context) : Nat :=
  notOn c.aliasPath p.aliases.size + notOn c.globalPath p.globals.size

/-- The levels below a context. The parts of an alias, a global or a template
are smaller than the package. -/
noncomputable def room (p : Package) (k : Nat) (c : Context) : Nat :=
  (closed p c * (k + 1) + (k - c.bindings.depth)) * sizeOf p

/-- The levels below which something of the given weight is answered. -/
noncomputable def rank (p : Package) (k : Nat) (c : Context) (weight : Nat) : Nat :=
  if k < c.bindings.depth ∨ weight = 0 then 0 else room p k c + weight

section Ranks

variable {p : Package} {k m : Nat} {c : Context}

theorem rank_lt {w : Nat} (h : room p k c + w < m) : rank p k c w < m := by
  unfold rank
  split
  · omega
  · exact h

theorem rank_zero_lt (hm : 0 < m) : rank p k c 0 < m := by
  rw [rank, if_pos (.inr rfl)]
  exact hm

theorem notOn_cons {path : List Nat} {x n : Nat} (hx : x < n) (hpath : x ∉ path) :
    notOn (x :: path) n + 1 ≤ notOn path n := by
  have hself : 0 < ((List.range n).filter (· == x)).countP (!path.contains ·) :=
    List.countP_pos_iff.mpr ⟨x, by simpa using hx, by simpa using hpath⟩
  have hsplit := List.countP_eq_countP_filter_add (List.range n) (!path.contains ·) (· == x)
  have hrest : notOn (x :: path) n =
      ((List.range n).filter fun y => !y == x).countP (!path.contains ·) := by
    rw [notOn, List.countP_filter]
    exact congrArg (List.countP · _) (funext fun y => by simp [Bool.beq_eq_decide_eq, Bool.and_comm])
  rw [hrest, notOn, hsplit]
  omega

/-- With less to open, and no template open, there is less room. -/
theorem room_of_closed {c' : Context} (h : closed p c' + 1 ≤ closed p c)
    (hb : c'.bindings.depth = 0) : room p k c' + sizeOf p ≤ room p k c := by
  have hmul : (closed p c' + 1) * (k + 1) ≤ closed p c * (k + 1) := Nat.mul_le_mul_right _ h
  rw [Nat.add_mul, Nat.one_mul] at hmul
  have hcount : closed p c' * (k + 1) + (k - c'.bindings.depth) + 1 ≤
      closed p c * (k + 1) + (k - c.bindings.depth) := by
    omega
  calc room p k c' + sizeOf p
      = (closed p c' * (k + 1) + (k - c'.bindings.depth) + 1) * sizeOf p := by
        rw [Nat.add_mul _ 1, Nat.one_mul]; rfl
    _ ≤ room p k c := Nat.mul_le_mul_right _ hcount

theorem room_openAlias {id : AliasId} (hid : id < p.aliases.size)
    (hpath : id ∉ c.aliasPath) :
    room p k (c.openAlias id) + sizeOf p ≤ room p k c := by
  refine room_of_closed ?_ rfl
  have hopen := notOn_cons hid hpath
  show notOn (id :: c.aliasPath) p.aliases.size + notOn c.globalPath p.globals.size + 1 ≤
    notOn c.aliasPath p.aliases.size + notOn c.globalPath p.globals.size
  omega

theorem room_openGlobal {id : GlobalId} (hid : id < p.globals.size)
    (hpath : id ∉ c.globalPath) :
    room p k (c.openGlobal id) + sizeOf p ≤ room p k c := by
  refine room_of_closed ?_ rfl
  have hopen := notOn_cons hid hpath
  show notOn c.aliasPath p.aliases.size + notOn (id :: c.globalPath) p.globals.size + 1 ≤
    notOn c.aliasPath p.aliases.size + notOn c.globalPath p.globals.size
  omega

theorem depth_openTemplate (c : Context) (frame : List (String × Ty)) :
    (c.openTemplate frame).bindings.depth = c.bindings.depth + 1 := rfl

theorem room_openTemplate (frame : List (String × Ty)) (h : c.bindings.depth < k) :
    room p k (c.openTemplate frame) + sizeOf p = room p k c := by
  have hcount : closed p c * (k + 1) + (k - (c.bindings.depth + 1)) + 1 =
      closed p c * (k + 1) + (k - c.bindings.depth) := by
    omega
  calc room p k (c.openTemplate frame) + sizeOf p
      = (closed p c * (k + 1) + (k - (c.bindings.depth + 1)) + 1) * sizeOf p := by
        rw [Nat.add_mul _ 1, Nat.one_mul]; rfl
    _ = room p k c := by rw [hcount]; rfl

/-- What a step asks for has a lower rank. -/
theorem allows_rank (h : room p k c < m) :
    Allows (.lax p fun c' x => rank p k c' x.weight < m) c where
  target {id} _ hpath := by
    have hw := typeWeight_le (p.typeAlias id).decl.target
    by_cases hid : id < p.aliases.size
    · have hroom := room_openAlias (k := k) hid hpath
      have hsize := sizeOf_alias_lt hid
      exact rank_lt (by simp only [Part.weight]; omega)
    · have hdefault : p.typeAlias id = default := by
        simp [Package.typeAlias, Nat.le_of_not_lt hid]
      rw [hdefault]
      exact rank_zero_lt (by omega)
  globalType {id} _ hpath t ht := by
    have hw := typeWeight_le t
    by_cases hid : id < p.globals.size
    · have hroom := room_openGlobal (k := k) hid hpath
      have hsize := sizeOf_global_lt hid
      have htype : sizeOf t < sizeOf (p.global id).decl := by
        rcases hd : (p.global id).decl with ⟨name, mutable, constant, type, value, span⟩
        rw [hd, Option.mem_def] at ht
        simp only [Syntax.GlobalDef.mk.sizeOf_spec, show type = some t from ht,
          Option.some.sizeOf_spec]
        omega
      exact rank_lt (by simp only [Part.weight]; omega)
    · have hdefault : p.global id = default := by simp [Package.global, Nat.le_of_not_lt hid]
      rw [hdefault] at ht
      cases ht
  globalValue {id} _ hpath := by
    have hw := exprWeight_le (p.global id).decl.value
    by_cases hid : id < p.globals.size
    · have hroom := room_openGlobal (k := k) hid hpath
      have hsize := sizeOf_global_lt hid
      have hvalue : sizeOf (p.global id).decl.value < sizeOf (p.global id).decl := by
        cases (p.global id).decl
        simp only [Syntax.GlobalDef.mk.sizeOf_spec]
        omega
      exact rank_lt (by simp only [Part.weight]; omega)
    · have hdefault : p.global id = default := by simp [Package.global, Nat.le_of_not_lt hid]
      rw [hdefault]
      exact rank_zero_lt (by omega)
  template _ frame t ht := by
    have hw := typeWeight_le t
    have hsize := sizeOf_writes_lt ht
    by_cases hk : c.bindings.depth < k
    · have hroom := room_openTemplate (p := p) frame hk
      exact rank_lt (by simp only [Part.weight]; omega)
    · -- No template may be opened any more, so the question is not passed on.
      have hdeep : k < (c.openTemplate frame).bindings.depth := by
        rw [depth_openTemplate]
        omega
      show rank p k _ _ < m
      rw [rank, if_pos (.inl hdeep)]
      omega

end Ranks

/-! ## Levels that are enough -/

theorem Step.tooDeep_below (x : Step α) : Step.tooDeep.Below x := fun _ _ h => by cases h

section Stability

variable {p : Package} {o : Options} {k : Nat} {c : Context}

theorem eq_rawPointer {t : TypeExpr} (h : typeWeight t = 0) : ∃ span, t = .rawPointer span := by
  cases t with
  | rawPointer span => exact ⟨span, rfl⟩
  | _ => simp [typeWeight] at h

theorem eq_literal {e : Expr} (h : exprWeight e = 0) : ∃ l span, e = .literal l span := by
  cases e with
  | literal l span => exact ⟨l, span, rfl⟩
  | _ => simp [exprWeight] at h

theorem asks_resolveStep_lower (t : TypeExpr) (hk : c.bindings.depth ≤ k) :
    AsksFor (.lax p fun c' x => rank p k c' x.weight < rank p k c (typeWeight t)) c (resolveStep t)
      ((Demand.lax p).Meant c t) := by
  by_cases hw : typeWeight t = 0
  · obtain ⟨span, rfl⟩ := eq_rawPointer hw
    exact .pure ⟨fun _ _ => Demand.covers_lax _, nofun⟩
  · have hsize : typeWeight t = sizeOf t := by
      cases t with
      | rawPointer span => exact absurd rfl hw
      | _ => rfl
    rw [rank, if_neg (by omega), hsize]
    refine asks_resolveStep_lax (allows_rank (by omega)) fun x hx => rank_lt ?_
    have hlt := weight_typeParts hx
    omega

theorem asks_evalStep_lower (e : Expr) (hint : Option Ty) (hk : c.bindings.depth ≤ k) :
    Asks (.lax p fun c' x => rank p k c' x.weight < rank p k c (exprWeight e)) c
      (evalStep e hint) := by
  by_cases hw : exprWeight e = 0
  · obtain ⟨l, span, rfl⟩ := eq_literal hw
    have hv : (Demand.lax p).Covers (literal l).type := Demand.covers_lax _
    exact .bind (.pure hv) fun _ hv => .then (asks_annotate trivial hv) fun _ => .pure hv
  · have hsize : exprWeight e = sizeOf e := by
      cases e with
      | literal l span => exact absurd rfl hw
      | _ => rfl
    rw [rank, if_neg (by omega), hsize]
    refine asks_evalStep_lax (allows_rank (by omega)) fun x hx => rank_lt ?_
    have hlt := weight_exprParts hx
    omega

/-- Levels above the rank do not matter. -/
theorem nested_stable (m : Nat) :
    (∀ c t, rank p k c (typeWeight t) < m → ∀ n n', m ≤ n → m ≤ n' →
      (resolveNested p o k n c t).Below (resolveNested p o k n' c t)) ∧
    (∀ c e hint, rank p k c (exprWeight e) < m → ∀ n n', m ≤ n → m ≤ n' →
      (evalNested p o k n c e hint).Below (evalNested p o k n' c e hint)) := by
  induction m with
  | zero => exact ⟨fun _ _ h => by omega, fun _ _ _ h => by omega⟩
  | succ m ih =>
    have hextends {r n n' : Nat} (hr : r ≤ m) (hn : m ≤ n) (hn' : m ≤ n') :
        Extends (fun c' x => rank p k c' x.weight < r) (resolveNested p o k n)
          (resolveNested p o k n') (evalNested p o k n) (evalNested p o k n') :=
      ⟨fun c' t ht => ih.1 c' t (Nat.lt_of_lt_of_le ht hr) n n' hn hn',
        fun c' e hint he => ih.2 c' e hint (Nat.lt_of_lt_of_le he hr) n n' hn hn'⟩
    constructor
    · intro c t ht n n' hn hn'
      obtain ⟨n, rfl⟩ := Nat.exists_eq_add_of_lt hn
      obtain ⟨n', rfl⟩ := Nat.exists_eq_add_of_lt hn'
      simp only [resolveNested]
      split
      · exact Step.tooDeep_below _
      next hk =>
        exact (asks_resolveStep_lower t (by omega)).below_of_extends
          (hextends (by omega) (by omega) (by omega))
    · intro c e hint he n n' hn hn'
      obtain ⟨n, rfl⟩ := Nat.exists_eq_add_of_lt hn
      obtain ⟨n', rfl⟩ := Nat.exists_eq_add_of_lt hn'
      simp only [evalNested]
      split
      · exact Step.tooDeep_below _
      next hk =>
        exact (asks_evalStep_lower e hint (by omega)).below_of_extends
          (hextends (by omega) (by omega) (by omega))

theorem resolveNested_eq {t : TypeExpr} {n n' : Nat} (hn : rank p k c (typeWeight t) < n)
    (hn' : rank p k c (typeWeight t) < n') :
    resolveNested p o k n c t = resolveNested p o k n' c t := by
  have hm := (nested_stable (o := o) (rank p k c (typeWeight t) + 1)).1 c t (Nat.lt_succ_self _)
  exact (hm n n' hn hn').antisymm (hm n' n hn' hn)

theorem evalNested_eq {e : Expr} {hint : Option Ty} {n n' : Nat}
    (hn : rank p k c (exprWeight e) < n) (hn' : rank p k c (exprWeight e) < n') :
    evalNested p o k n c e hint = evalNested p o k n' c e hint := by
  have hm := (nested_stable (o := o) (rank p k c (exprWeight e) + 1)).2 c e hint (Nat.lt_succ_self _)
  exact (hm n n' hn hn').antisymm (hm n' n hn' hn)

end Stability

/-! ## A bound on open templates -/

section Templates

variable {p : Package} {o : Options} {k : Nat} {c : Context}

theorem allows_depth {d : Nat} (h : c.bindings.depth ≤ d) :
    Allows (.lax p fun c' _ => c'.bindings.depth ≤ d + 1) c where
  target _ _ := Nat.zero_le _
  globalType _ _ _ _ := Nat.zero_le _
  globalValue _ _ := Nat.zero_le _
  template _ _ _ _ := Nat.succ_le_succ h

/-- A bound on the open templates takes answers away and adds none. -/
theorem nested_below_at (n : Nat) :
    (∀ c t, (resolveNested p o k n c t).Below (resolveAt p o n c t)) ∧
    (∀ c e hint, (evalNested p o k n c e hint).Below (evalAt p o n c e hint)) := by
  induction n with
  | zero => exact ⟨fun _ _ => Step.tooDeep_below _, fun _ _ _ => Step.tooDeep_below _⟩
  | succ n ih =>
    have hextends : Extends (fun _ _ => True) (resolveNested p o k n) (resolveAt p o n)
        (evalNested p o k n) (evalAt p o n) :=
      ⟨fun c' t _ => ih.1 c' t, fun c' e hint _ => ih.2 c' e hint⟩
    constructor
    · intro c t
      simp only [resolveNested, resolveAt]
      split
      · exact Step.tooDeep_below _
      · exact (asks_resolveStep_lax allows_any fun _ _ => trivial).below_of_extends hextends
    · intro c e hint
      simp only [evalNested, evalAt]
      split
      · exact Step.tooDeep_below _
      · exact (asks_evalStep_lax allows_any fun _ _ => trivial).below_of_extends hextends

/-- With `n` levels no more than `n` templates are opened inside each other. -/
theorem at_below_nested (n : Nat) :
    (∀ c t n', c.bindings.depth + n ≤ k → n ≤ n' →
      (resolveAt p o n c t).Below (resolveNested p o k n' c t)) ∧
    (∀ c e hint n', c.bindings.depth + n ≤ k → n ≤ n' →
      (evalAt p o n c e hint).Below (evalNested p o k n' c e hint)) := by
  induction n with
  | zero => exact ⟨fun _ _ _ _ _ => Step.tooDeep_below _, fun _ _ _ _ _ _ => Step.tooDeep_below _⟩
  | succ n ih =>
    have hextends {c : Context} {n' : Nat} (hk : c.bindings.depth + (n + 1) ≤ k) (hn : n ≤ n') :
        Extends (fun c' _ => c'.bindings.depth ≤ c.bindings.depth + 1) (resolveAt p o n)
          (resolveNested p o k n') (evalAt p o n) (evalNested p o k n') :=
      ⟨fun c' t hd => ih.1 c' t n' (by omega) hn, fun c' e hint hd => ih.2 c' e hint n' (by omega) hn⟩
    constructor
    · intro c t n' hk hn
      obtain ⟨n', rfl⟩ := Nat.exists_eq_add_of_lt hn
      simp only [resolveNested, resolveAt]
      rw [if_neg (by omega)]
      exact (asks_resolveStep_lax (allows_depth (Nat.le_refl _)) fun _ _ =>
        Nat.le_succ _).below_of_extends (hextends hk (by omega))
    · intro c e hint n' hk hn
      obtain ⟨n', rfl⟩ := Nat.exists_eq_add_of_lt hn
      simp only [evalNested, evalAt]
      rw [if_neg (by omega)]
      exact (asks_evalStep_lax (allows_depth (Nat.le_refl _)) fun _ _ =>
        Nat.le_succ _).below_of_extends (hextends hk (by omega))

end Templates

/-! ## More levels -/

section Levels

variable {p : Package} {o : Options} {n m : Nat}

theorem below_at (h : n ≤ m) :
    (∀ c t, (resolveAt p o n c t).Below (resolveAt p o m c t)) ∧
    (∀ c e hint, (evalAt p o n c e hint).Below (evalAt p o m c e hint)) :=
  ⟨fun c t _ _ hrun => (nested_below_at m).1 c t ((at_below_nested n).1 c t m (Nat.le_refl _) h hrun),
    fun c e hint _ _ hrun =>
      (nested_below_at m).2 c e hint ((at_below_nested n).2 c e hint m (Nat.le_refl _) h hrun)⟩

theorem extends_at (h : n ≤ m) :
    Extends (fun _ _ => True) (resolveAt p o n) (resolveAt p o m) (evalAt p o n) (evalAt p o m) :=
  ⟨fun c' t _ => (below_at h).1 c' t, fun c' e hint _ => (below_at h).2 c' e hint⟩

end Levels

/-! ## The recursion without levels -/

/-- Resolution with at most `k` templates open inside each other. -/
noncomputable def resolveWithin (p : Package) (o : Options) (k : Nat) (c : Context)
    (t : TypeExpr) : Step (Option Ty) :=
  resolveNested p o k (rank p k c (typeWeight t) + 1) c t

/-- Evaluation with at most `k` templates open inside each other. -/
noncomputable def evalWithin (p : Package) (o : Options) (k : Nat) (c : Context) (e : Expr)
    (hint : Option Ty) : Step Value :=
  evalNested p o k (rank p k c (exprWeight e) + 1) c e hint

section Within

variable (p : Package) (o : Options)

/-- Below a rank, that many levels answer like none. -/
theorem extends_within (k n : Nat) :
    Extends (fun c x => rank p k c x.weight < n) (resolveNested p o k n) (resolveWithin p o k)
      (evalNested p o k n) (evalWithin p o k) ∧
    Extends (fun c x => rank p k c x.weight < n) (resolveWithin p o k) (resolveNested p o k n)
      (evalWithin p o k) (evalNested p o k n) := by
  have hresolve : ∀ c t, rank p k c (typeWeight t) < n →
      resolveNested p o k n c t = resolveWithin p o k c t :=
    fun c t h => resolveNested_eq h (Nat.lt_succ_self _)
  have heval : ∀ c e hint, rank p k c (exprWeight e) < n →
      evalNested p o k n c e hint = evalWithin p o k c e hint :=
    fun c e hint h => evalNested_eq h (Nat.lt_succ_self _)
  exact ⟨⟨fun c t h => .of_eq (hresolve c t h), fun c e hint h => .of_eq (heval c e hint h)⟩,
    ⟨fun c t h => .of_eq (hresolve c t h).symm, fun c e hint h => .of_eq (heval c e hint h).symm⟩⟩

theorem resolveWithin_eq (k : Nat) (c : Context) (t : TypeExpr) :
    resolveWithin p o k c t =
      if k < c.bindings.depth then .tooDeep
      else resolveStep t ⟨p, o, c, resolveWithin p o k, evalWithin p o k⟩ := by
  rw [resolveWithin, resolveNested]
  split
  · rfl
  next hk =>
    have hasks := asks_resolveStep_lower (p := p) t (Nat.le_of_not_lt hk)
    obtain ⟨hle, hge⟩ := extends_within p o k (rank p k c (typeWeight t))
    exact (hasks.below_of_extends hle).antisymm (hasks.below_of_extends hge)

theorem evalWithin_eq (k : Nat) (c : Context) (e : Expr) (hint : Option Ty) :
    evalWithin p o k c e hint =
      if k < c.bindings.depth then .tooDeep
      else evalStep e hint ⟨p, o, c, resolveWithin p o k, evalWithin p o k⟩ := by
  rw [evalWithin, evalNested]
  split
  · rfl
  next hk =>
    have hasks := asks_evalStep_lower (p := p) e hint (Nat.le_of_not_lt hk)
    obtain ⟨hle, hge⟩ := extends_within p o k (rank p k c (exprWeight e))
    exact (hasks.below_of_extends hle).antisymm (hasks.below_of_extends hge)

end Within

end JaneCheck.Check
