import JaneCheck.Proofs.Collected
import JaneCheck.Proofs.Formulas
import JaneCheck.Proofs.Notes
import JaneCheck.Proofs.Suppression

/-!
# Values of globals

Globals are computed depth first, and the value of a global is remembered while
others are still open. Where all initial values are formulas in the names of
globals, the value of a global is what its formula means (`Means`), and void if the
formula leads to a cycle: what is remembered is that value, and a global without a
meaning is never remembered before a cycle was reported. So the values do not depend on
the order of the declarations.
-/

namespace JaneCheck

open Relation (ReflTransGen TransGen)

open Syntax (BinOp Expr GlobalDef Ident UnOp)

/-- What a global is declared to be, wherever that is. -/
def GlobalInfo.bare (g : GlobalInfo) : String × Bool × Bool × Expr :=
  (g.name, g.decl.constant, g.decl.mutable, g.decl.value.bare)

variable {v v' : Value}

namespace Package

/-- The declaration of a global. -/
def initializer? (p : Package) (name : String) : Option GlobalDef :=
  (p.globals.find? (·.name == name)).map (·.decl)

/-- A global has the name. -/
def NamesGlobal (p : Package) (name : String) : Prop :=
  ∃ id < p.globals.size, (p.global id).name = name

/-- Every global has a name of its own, no type and no value yet, and its initial value
is a formula in the names of globals. -/
structure HasFormulas (p : Package) : Prop where
  named : ∀ {id}, id < p.globals.size → p.lookup? (p.global id).name = some (.global id)
  notBuiltin : ∀ {id}, id < p.globals.size → builtinFunc? (p.global id).name = none
  untyped : ∀ {id}, id < p.globals.size → (p.global id).decl.type = none
  unvalued : ∀ {id}, id < p.globals.size → (p.global id).value = none
  formula : ∀ {id}, id < p.globals.size → (p.global id).decl.value.Formula p.NamesGlobal

/-- The value that the formula of a global comes to. -/
def Stands (p : Package) (S : Setting) (name : String) (v : Value) : Prop :=
  ∃ d w, p.initializer? name = some d ∧ Means p.initializer? S d.value w ∧
    d.stored S.wordSize w = v

section Stands

variable {p : Package} {S : Setting} {name : String} {id : GlobalId}

theorem exists_of_initializer? {d : GlobalDef} (h : p.initializer? name = some d) :
    ∃ id < p.globals.size, (p.global id).name = name ∧ (p.global id).decl = d := by
  obtain ⟨g, hg, rfl⟩ := Option.map_eq_some_iff.mp h
  obtain ⟨id, hid, rfl⟩ := Array.getElem_of_mem (Array.mem_of_find?_eq_some hg)
  have hglobal : p.global id = p.globals[id] := by simp [global, hid]
  have hname := Array.find?_some hg
  rw [← hglobal] at hname ⊢
  exact ⟨id, hid, by simpa using hname, rfl⟩

theorem initializer?_global (hp : p.HasFormulas) (hid : id < p.globals.size) :
    p.initializer? (p.global id).name = some (p.global id).decl := by
  have hsome : (p.initializer? (p.global id).name).isSome = true := by
    simp only [initializer?, Option.isSome_map, Array.find?_isSome]
    exact ⟨p.global id, by simp [global, hid], by simp⟩
  obtain ⟨d, hd⟩ := Option.isSome_iff_exists.mp hsome
  obtain ⟨id', hid', hname, rfl⟩ := exists_of_initializer? hd
  have hlookup := hp.named hid'
  rw [hname, hp.named hid] at hlookup
  cases hlookup
  exact hd

theorem stands_global (hp : p.HasFormulas) (hid : id < p.globals.size) (v : Value) :
    p.Stands S (p.global id).name v ↔ ∃ w, Means p.initializer? S (p.global id).decl.value w ∧
      (p.global id).decl.stored S.wordSize w = v := by
  constructor
  · rintro ⟨d, w, hd, hw⟩
    cases (initializer?_global hp hid).symm.trans hd
    exact ⟨w, hw⟩
  · rintro ⟨w, hw⟩
    exact ⟨_, w, initializer?_global hp hid, hw⟩

theorem means_ident (i : Ident) (v : Value) :
    Means p.initializer? S (.ident i) v ↔ p.Stands S i.name v := by
  constructor
  · intro h
    cases h with
    | name hd hv => exact ⟨_, _, hd, hv, rfl⟩
  · rintro ⟨d, w, hd, hw, rfl⟩
    exact .name hd hw

theorem not_stands_of_reaches {a : String} (hreach : ReflTransGen (Refers p.initializer?) name a)
    (hcycle : TransGen (Refers p.initializer?) a a) (v : Value) : ¬ p.Stands S name v := by
  intro h
  have hmeans := (means_ident ⟨name, default⟩ v).mpr h
  exact hmeans.not_reaches .name hreach hcycle

/-! ### Order -/

theorem alike_of_perm {p' : Package} (hp' : p'.HasFormulas)
    (hperm : (p.globals.toList.map GlobalInfo.bare).Perm (p'.globals.toList.map GlobalInfo.bare))
    {d : GlobalDef} (hd : p.initializer? name = some d) :
    ∃ d', p'.initializer? name = some d' ∧ d.Alike d' := by
  obtain ⟨id, hid, rfl, rfl⟩ := exists_of_initializer? hd
  have hmem : (p.global id).bare ∈ p.globals.toList.map GlobalInfo.bare :=
    List.mem_map_of_mem (by simp [global, hid])
  obtain ⟨g, hg, hbare⟩ := List.mem_map.mp (hperm.mem_iff.mp hmem)
  obtain ⟨id', hid', rfl⟩ := Array.getElem_of_mem (Array.mem_toList_iff.mp hg)
  have hglobal : p'.global id' = p'.globals[id'] := by simp [global, hid']
  rw [← hglobal] at hbare
  obtain ⟨hname, hconstant, hmutable, hvalue⟩ := by simpa [GlobalInfo.bare] using hbare
  refine ⟨(p'.global id').decl, ?_, hconstant.symm, hmutable.symm, hvalue.symm⟩
  rw [← hname]
  exact initializer?_global hp' hid'

theorem Stands.transfer {p' : Package}
    (hD : ∀ {name d}, p.initializer? name = some d → ∃ d', p'.initializer? name = some d' ∧ d.Alike d')
    (h : p.Stands S name v) : p'.Stands S name v := by
  obtain ⟨d, w, hd, hw, rfl⟩ := h
  obtain ⟨d', hd', halike⟩ := hD hd
  exact ⟨d', w, hd', hw.transfer hD halike.value, (halike.stored _ _).symm⟩

end Stands

end Package

namespace Check

/-! ## What is remembered -/

/-- What is found of the globals. A failure is noted as void. -/
def globalNotes (p : Package) (S : Setting) : Notes Value Value where
  cache := (·.globalCache)
  cyclic := (·.cyclicGlobals)
  noted := (·.getD .void)
  Alarm d := ∃ name, d.problem = .cycle name
  Stands id := p.Stands S (p.global id).name
  Knotted := ∃ a, TransGen (Refers p.initializer?) a a

/-- What was found of globals since `s0` is right. -/
abbrev Accurate (p : Package) (S : Setting) := (globalNotes p S).Truthful

/-- The value is the one with `P`, or void if there is none. -/
abbrev Computes (p : Package) (S : Setting) := (globalNotes p S).Gave

variable {span : Span}

section Computes

variable {p : Package} {S : Setting} {s0 s s' : State} {P : Value → Prop} {v : Value}

theorem Accurate.computes (h : Accurate p S s0 s) (hv : ∀ w, P w ↔ w = v) : Computes p S s0 P v s :=
  ⟨some v, rfl, h.answered hv⟩

theorem onward_report {q : Problem} (hq : ∀ name, q ≠ .cycle name) :
    (globalNotes p S).Onward s { s with diags := s.diags.push ⟨q, span⟩ } :=
  .of_append (by constructor <;> simp) rfl rfl (List.forall_mem_singleton.mpr hq) Array.toList_push

theorem Computes.map {Q : Value → Prop} {f : Value → Value} (h : Computes p S s0 P v s)
    (hvoid : f .void = .void) (hQ : ∀ w, Q w ↔ ∃ u, P u ∧ f u = w) :
    Computes p S s0 Q (f v) s := by
  obtain ⟨r, rfl, hr⟩ := h
  refine ⟨r.map f, ?_, hr.map hQ⟩
  cases r with
  | none => exact hvoid.symm
  | some u => rfl

theorem Computes.both {P' Q : Value → Prop} {f : Value → Value → Value} (h : Computes p S s0 P v s)
    (h' : Computes p S s0 P' v' s') (hle : s.Le s') (hleft : ∀ u, f .void u = .void)
    (hright : ∀ u, f u .void = .void) (hQ : ∀ w, Q w ↔ ∃ u u', P u ∧ P' u' ∧ f u u' = w) :
    Computes p S s0 Q (f v v') s' := by
  obtain ⟨r, rfl, hr⟩ := h
  obtain ⟨r', rfl, hr'⟩ := h'
  refine ⟨_, ?_, hr.both hr' hle hQ⟩
  cases r with
  | none => exact (hleft _).symm
  | some u =>
    cases r' with
    | none => exact (hright u).symm
    | some u' => rfl

end Computes

/-! ## Asking for a global -/

/-- Every global on the path leads to those inside it, and to what the formula
mentions. -/
abbrev Follows (p : Package) (path : List GlobalId) (e : Expr) : Prop :=
  Along (Refers p.initializer?) (fun a => (p.global a).name) path e.Mentions

theorem Follows.openGlobal {p : Package} {path : List GlobalId} {e : Expr} {id : GlobalId}
    (hp : p.HasFormulas) (hid : id < p.globals.size) (h : Follows p path e)
    (hmention : e.Mentions (p.global id).name) :
    Follows p (id :: path) (p.global id).decl.value :=
  h.opened hmention fun hname => ⟨_, Package.initializer?_global hp hid, hname⟩

section Globals

variable {p : Package} {S : Setting} {o : Options} {s0 s : State} {c : Context} {n : Nat}
  {id : GlobalId}

theorem gives_globalValue (hvalue : (p.global id).value = none) (hreport : c.reportGlobals = true)
    (hs : Accurate p S s0 s)
    (hcycle : id ∈ c.globalPath → ∀ a ∈ cycleMembers c.globalPath id,
      TransGen (Refers p.initializer?) (p.global a).name (p.global a).name)
    (hopen : id ∉ c.globalPath →
      Gives (envAt p o n (c.openGlobal id)) s (computeGlobal (p.global id).decl)
        (Computes p S s0 (p.Stands S (p.global id).name))) :
    Gives (envAt p o n c) s (globalValue id) (Computes p S s0 (p.Stands S (p.global id).name)) := by
  by_cases hcyclic : id ∈ s.cyclicGlobals
  · exact ⟨.void, s, GlobalRun.run (.cyclic hvalue hcyclic), none, rfl, hs.cyclic id hcyclic, hs⟩
  cases hanswer : s.globalCache.lookup id with
  | some v =>
    obtain ⟨r, hnoted, hr⟩ := hs.answers hanswer
    exact ⟨v, s, GlobalRun.run (.answered hvalue hcyclic hanswer), r, hnoted, hr, hs⟩
  | none =>
    have hfresh : FreshGlobal p id s := ⟨hvalue, hcyclic, hanswer⟩
    by_cases hpath : id ∈ c.globalPath
    · have hcycle := hcycle hpath
      have hself : id ∈ cycleMembers c.globalPath id := List.mem_append_right _ List.mem_cons_self
      exact ⟨.void, s.closeGlobals c.globalPath id (p.global id), GlobalRun.run (.cycle hfresh hpath),
        none, rfl, hs.close (by constructor <;> simp [State.closeGlobals])
          (State.added_of_append Array.toList_push) ⟨_, rfl⟩ rfl rfl ⟨_, hcycle id hself⟩
          fun a ha => Package.not_stands_of_reaches .refl (hcycle a ha)⟩
    · obtain ⟨_, s1, hrun, r, rfl, hr⟩ := hopen hpath
      have hnoted : (if s1.cyclicGlobals.contains id then none else r).getD Value.void =
          if s1.cyclicGlobals.contains id then .void else r.getD .void := by
        split <;> rfl
      have hstate := GlobalRun.run (.computed (show FreshGlobal (envAt p o n c).package id s from hfresh)
        hpath hrun)
      rw [show (envAt p o n c).context.reportGlobals = true from hreport] at hstate
      exact ⟨_, _, hstate, _, hnoted, hr.remember (by constructor <;> simp [State.rememberGlobal, State.heard])
        (State.added_of_append (List.append_nil _).symm) rfl
        (congrArg (fun v => (id, v) :: s1.globalCache) hnoted.symm)⟩

/-! ## Computing a global -/

variable {e : Expr} {env : Env} {hint : Option Ty} {D : String → Option GlobalDef}

theorem gives_globalOf {decl : GlobalDef} (v : Value) :
    Gives env s (globalOf decl none v) fun w s' =>
      w = decl.stored env.options.wordSize v ∧ (globalNotes p S).Onward s s' := by
  unfold globalOf GlobalDef.stored
  cases hnil : v.type.isNil with
  | true =>
    refine ⟨.void, { s with diags := s.diags.push ⟨.nilWithoutType, decl.value.span⟩ }, ?_, rfl,
      onward_report nofun⟩
    simp only [inferredType, hnil]
    rfl
  | false =>
    cases hvoid : v.type.isVoid with
    | true =>
      refine ⟨.void, { s with diags := s.diags.push ⟨.voidWithoutType, decl.value.span⟩ }, ?_, rfl,
        onward_report nofun⟩
      simp only [inferredType, hnil, hvoid]
      rfl
    | false =>
      have htype : Gives env s (inferredType v decl.value.span) fun t s' =>
          t = v.type ∧ s' = s := by
        refine ⟨v.type, s, ?_, rfl, rfl⟩
        simp only [inferredType, hnil, hvoid]
        rfl
      refine .bind htype fun t s1 ht _ => ?_
      obtain ⟨rfl, rfl⟩ := ht
      dsimp only
      rw [hvoid]
      cases hconst : decl.constant with
      | false => exact .pure ⟨rfl, .refl _ _⟩
      | true =>
        cases hv : v.constant with
        | none =>
          simp only [Value.isConst, hv]
          exact ⟨_, _, rfl, rfl, onward_report nofun⟩
        | some k =>
          simp only [Value.isConst, hv]
          exact ⟨_, _, rfl, rfl, .refl _ _⟩

theorem gives_evalChecked {Q : Value → State → Prop} (h : Gives env s (eval e hint) Q) :
    Gives env s (evalChecked e hint) fun r s' =>
      ∃ v, Q v s' ∧ (r = some v ∨ r = none ∧ v.type.isVoid = true) := by
  refine .bind (M := fun m s' => s' = s) ⟨_, s, rfl, rfl⟩ fun m s1 hs1 _ => ?_
  subst hs1
  refine .bind h fun v s2 hv _ => ?_
  refine .bind (M := fun failed s' => s' = s2 ∧ (failed = true → v.type.isVoid = true))
    ⟨_, s2, rfl, rfl, fun hfailed => (Bool.and_eq_true_iff.mp hfailed).1⟩ fun failed s3 hs3 _ => ?_
  obtain ⟨rfl, hvoid⟩ := hs3
  refine .pure ⟨v, hv, ?_⟩
  cases failed with
  | true => exact .inr ⟨rfl, hvoid rfl⟩
  | false => exact .inl rfl

theorem gives_computeGlobal (hp : p.HasFormulas) (hid : id < p.globals.size)
    (hS : S.wordSize = o.wordSize)
    (h : Gives (envAt p o n c) s (eval (p.global id).decl.value none)
      (Computes p S s0 (Means p.initializer? S (p.global id).decl.value))) :
    Gives (envAt p o n c) s (computeGlobal (p.global id).decl)
      (Computes p S s0 (p.Stands S (p.global id).name)) := by
  have hstored : ∀ {v s'}, Computes p S s0 (Means p.initializer? S (p.global id).decl.value) v s' →
      Computes p S s0 (p.Stands S (p.global id).name) ((p.global id).decl.stored o.wordSize v) s' :=
    fun hv => hS ▸ hv.map rfl (Package.stands_global hp hid)
  unfold computeGlobal
  rw [hp.untyped hid]
  refine .bind (M := fun declared s' => declared = none ∧ s' = s) (.pure ⟨rfl, rfl⟩)
    fun declared s1 hdeclared _ => ?_
  obtain ⟨rfl, rfl⟩ := hdeclared
  refine .bind (gives_evalChecked h) fun r s2 hr _ => ?_
  obtain ⟨v, hv, rfl | ⟨rfl, hvoid⟩⟩ := hr
  · refine (gives_globalOf (p := p) (S := S) v).mono fun w s3 hw => ?_
    obtain ⟨rfl, hs3⟩ := hw
    exact (hstored hv).onward hs3
  · have hnothing : (p.global id).decl.stored o.wordSize v = .void := by
      rw [GlobalDef.stored, hvoid, Bool.or_true, if_pos rfl]
    exact .pure (hnothing ▸ hstored hv)

/-! ## Evaluating a formula -/

theorem Computes.simple (h : Computes p S s0 (Means D S e) v s) : v.Simple := by
  obtain ⟨_ | u, rfl, hr⟩ := h
  · exact Value.simple_void
  · exact ((hr.answer u).mp rfl).simple

theorem Computes.accurate {P : Value → Prop} (h : Computes p S s0 P v s) : Accurate p S s0 s := by
  obtain ⟨_, -, hr⟩ := h
  exact hr.truthful

theorem gives_unary {op : UnOp} (hop : op.isScalar = true)
    (h : Gives env s (eval e hint) (Computes p S s0 (Means D S e))) :
    Gives env s (unary op e hint span) (Computes p S s0 (Means D S (.unary op e span))) := by
  have hplain : (op == .deref) = false ∧ (op == .addressOf) = false := by
    cases op <;> first | exact ⟨rfl, rfl⟩ | cases hop
  have hmeans : ∀ w, Means D S (.unary op e span) w ↔ ∃ u, Means D S e u ∧ u.applied op = w := by
    intro w
    constructor
    · intro hw
      cases hw with
      | unary _ hu => exact ⟨_, hu, rfl⟩
    · rintro ⟨u, hu, rfl⟩
      exact .unary hop hu
  unfold unary
  rw [hplain.1, hplain.2]
  refine .bind h fun v s1 hv _ => ?_
  have happlied := hv.map (f := (·.applied op)) rfl hmeans
  cases hvoid : v.type.isVoid with
  | true =>
    rw [Value.applied, hvoid] at happlied
    exact .pure happlied
  | false =>
    rw [Value.applied, hvoid] at happlied
    cases hresult : unaryValue? op v with
    | some w =>
      rw [hresult] at happlied
      exact .pure happlied
    | none =>
      rw [hresult] at happlied
      exact ⟨_, _, rfl, happlied.onward (onward_report nofun)⟩

theorem gives_binary {op : BinOp} {l r : Expr} (hS : S.wordSize = o.wordSize)
    (hl : Gives (envAt p o n c) s (eval l none) (Computes p S s0 (Means D S l)))
    (hr : ∀ {s}, Accurate p S s0 s → Gives (envAt p o n c) s (eval r none) (Computes p S s0 (Means D S r))) :
    Gives (envAt p o n c) s (binary op l r span)
      (Computes p S s0 (Means D S (.binary op l r span))) := by
  have hmeans : ∀ w, Means D S (.binary op l r span) w ↔
      ∃ u v, Means D S l u ∧ Means D S r v ∧ Value.combined S op u v = w := by
    intro w
    constructor
    · intro hw
      cases hw with
      | binary hu hv => exact ⟨_, _, hu, hv, rfl⟩
    · rintro ⟨u, v, hu, hv, rfl⟩
      exact .binary hu hv
  have hright : ∀ u, Value.combined S op u .void = .void := fun u => by
    rw [Value.combined, show Value.void.type.isVoid = true from rfl, Bool.or_true, if_pos rfl]
  refine .bind hl fun u s1 hu _ => .bind (hr (Computes.accurate hu)) fun v s2 hv hle => ?_
  have hcombined := hu.both hv hle (f := Value.combined S op) (fun _ => rfl) hright hmeans
  cases hvoid : u.type.isVoid || v.type.isVoid with
  | true =>
    rw [Value.combined, hvoid] at hcombined
    exact .pure hcombined
  | false =>
    rw [Value.combined, hvoid] at hcombined
    obtain ⟨huvoid, hvvoid⟩ := Bool.or_eq_false_iff.mp hvoid
    have huscalar := (Computes.simple hu).scalar huvoid
    have hvscalar := (Computes.simple hv).scalar hvvoid
    have hsolve : Operator.solve ⟨p.definitions, o.wordSize⟩ u op v = Operator.solve S u op v := by
      rw [← hS]
      exact Operator.solve_scalar_defs huscalar hvscalar
    refine gives_solve hsolve (hcombined.onward (.of_append (by constructor <;> simp) rfl rfl ?_
      Array.toList_appendList))
    exact List.forall_mem_map.mpr (Operator.within_solve_scalar huscalar hvscalar).acyclic

theorem gives_identValue (hp : p.HasFormulas) (hid : id < p.globals.size) {i : Ident}
    (hname : (p.global id).name = i.name) (hblock : c.block = none)
    (h : Gives (envAt p o n c) s (globalValue id)
      (Computes p S s0 (p.Stands S (p.global id).name))) :
    Gives (envAt p o n c) s (identValue i)
      (Computes p S s0 (Means p.initializer? S (.ident i))) := by
  have hvar : Gives (envAt p o n c) s (lookupVar i.name) fun r s' => r = none ∧ s' = s := by
    refine .context ?_
    rw [show (envAt p o n c).context.block = none from hblock]
    exact .pure ⟨rfl, rfl⟩
  have hdefined : Gives (envAt p o n c) s (definedValue i)
      (Computes p S s0 (Means p.initializer? S (.ident i))) := by
    have hlookup : (envAt p o n c).package.lookup? i.name = some (.global id) :=
      hname ▸ hp.named hid
    refine .package ?_
    rw [hlookup]
    refine .bind h fun v s1 hv _ => ?_
    have hmeans : p.Stands S (p.global id).name = Means p.initializer? S (.ident i) :=
      funext fun w => hname ▸ propext (Package.means_ident i w).symm
    rw [hmeans] at hv
    unfold countVoidRead
    cases v.type.isVoid with
    | true =>
      exact ⟨_, _, rfl, hv.onward (.of_append (by constructor <;> simp) rfl rfl
        (List.forall_mem_nil _) (List.append_nil _).symm)⟩
    | false => exact ⟨_, _, rfl, hv⟩
  refine .bind hvar fun r s1 hr _ => ?_
  obtain ⟨rfl, rfl⟩ := hr
  have hbuiltin : builtinFunc? i.name = none := hname ▸ hp.notBuiltin hid
  rw [hbuiltin]
  exact hdefined

/-- There is room for the initial value of a global that is not open. -/
theorem room_openGlobal_value (hid : id < p.globals.size) (hpath : id ∉ c.globalPath) :
    room p 0 (c.openGlobal id) + sizeOf (p.global id).decl.value < room p 0 c := by
  have hroom := room_openGlobal (k := 0) hid (by simpa using hpath)
  have hsize := sizeOf_global_lt hid
  have hvalue : sizeOf (p.global id).decl.value < sizeOf (p.global id).decl := by
    cases (p.global id).decl
    simp only [GlobalDef.mk.sizeOf_spec]
    omega
  omega

/-- With enough levels below, a formula evaluates to its meaning. -/
theorem computes_eval (hp : p.HasFormulas) (hS : S.wordSize = o.wordSize)
    (he : e.Formula p.NamesGlobal) (hblock : c.block = none) (hreport : c.reportGlobals = true)
    (hfollows : Follows p c.globalPath e) (hn : room p 0 c + sizeOf e ≤ n) (hs : Accurate p S s0 s) :
    Gives (envAt p o n c) s (eval e hint) (Computes p S s0 (Means p.initializer? S e)) := by
  induction n generalizing c e s hint with
  | zero =>
    have hpos : 0 < sizeOf e := by cases e <;> simp +arith
    omega
  | succ n ih =>
    have hstep : Gives (envAt p o n c) s (exprValue e hint)
        (Computes p S s0 (Means p.initializer? S e)) := by
      cases he with
      | literal =>
        refine .pure (Accurate.computes hs fun w => ⟨fun hw => ?_, fun hw => hw ▸ .literal⟩)
        cases hw
        rfl
      | @name i hname =>
        obtain ⟨id, hid, hname⟩ := hname
        have hmention : (Expr.ident i).Mentions (p.global id).name := hname ▸ .name
        refine gives_identValue hp hid hname hblock
          (gives_globalValue (hp.unvalued hid) hreport hs (hfollows.cycle hmention) fun hpath => ?_)
        have hroom := room_openGlobal_value hid hpath
        exact gives_computeGlobal hp hid hS (ih (hp.formula hid) rfl hreport
          (hfollows.openGlobal hp hid hmention) (by omega) hs)
      | unary hop he =>
        rw [Expr.unary.sizeOf_spec] at hn
        exact gives_unary hop (ih he hblock hreport (hfollows.part .operand) (by omega) hs)
      | binary hl hr =>
        rw [Expr.binary.sizeOf_spec] at hn
        exact gives_binary hS (ih hl hblock hreport (hfollows.part .left) (by omega) hs)
          fun hs => ih hr hblock hreport (hfollows.part .right) (by omega) hs
    exact .eval (hstep.mono fun v s' hv => ⟨(Computes.simple hv).isType, hv.onward
      (.of_append (by constructor <;> simp) rfl rfl (List.forall_mem_nil _)
        (List.append_nil _).symm)⟩)

end Globals

/-! ## All globals -/

section All

variable {p p' : Package} {S : Setting} {o : Options} {s0 s : State} {n : Nat}

theorem gives_globalValue_of_none_open (hp : p.HasFormulas) (hS : S.wordSize = o.wordSize)
    {id : GlobalId} (hid : id < p.globals.size) (hn : room p 0 { reportGlobals := true } ≤ n)
    (hs : Accurate p S s0 s) :
    Gives (envAt p o n { reportGlobals := true }) s (globalValue id)
      (Computes p S s0 (p.Stands S (p.global id).name)) := by
  refine gives_globalValue (hp.unvalued hid) rfl hs nofun fun hpath => ?_
  have hroom := room_openGlobal_value hid hpath
  have hfollows : Follows p [] (.ident ⟨(p.global id).name, default⟩) := ⟨.nil, nofun⟩
  exact gives_computeGlobal hp hid hS (computes_eval hp hS (hp.formula hid) rfl rfl
    (hfollows.openGlobal hp hid .name) (by omega) hs)

/-- The value is the one with `P`, or void if there is none. -/
def Amounts (P : Value → Prop) (v : Value) : Prop :=
  ∃ r : Option Value, r.getD .void = v ∧ ∀ w, r = some w ↔ P w

/-- Every global gets the value of its formula, and a cycle is reported if and only if
there is one. -/
theorem computeGlobals_amounts (hp : p.HasFormulas) (hS : S.wordSize = o.wordSize)
    (hn : room p 0 { reportGlobals := true } ≤ n) :
    ∃ q found, p.computeGlobals ⟨o, n⟩ = some (q, found) ∧
      (∀ id < p.globals.size, ∃ v, (q.global id).value = some v ∧
        Amounts (p.Stands S (p.global id).name) v) ∧
      ((∃ d ∈ found.diags, ∃ name, d.problem = .cycle name) ↔
        ∃ a, TransGen (Refers p.initializer?) a a) := by
  have hids : ∀ id ∈ List.range p.globals.size, id < p.globals.size := fun id => List.mem_range.mp
  have hstart : Accurate p S {} {} := Notes.truthful_start rfl rfl
  obtain ⟨vs, s, hrun, hvalues, hs, hcycled⟩ := Notes.gives_each
    (fun id hid _ hs => gives_globalValue_of_none_open (o := o) hp hS (hids id hid) hn hs) hstart
  obtain ⟨q, found, hcompute⟩ : ∃ q found, p.computeGlobals ⟨o, n⟩ = some (q, found) :=
    ⟨_, _, Option.bind_eq_some_iff.mpr ⟨(vs, .ofState s), Package.find_of_run hrun, rfl⟩⟩
  obtain ⟨vs', s', hrun', rfl, hlength, -, -, hvalue⟩ := Package.exists_values hcompute
  cases hrun.symm.trans hrun'
  have hdiags : ∀ d, d ∈ s.diags ↔ d ∈ State.added {} s := fun d => by
    simp [State.added]
  refine ⟨q, _, hcompute, fun id hid => ?_, ?_, ?_⟩
  · have hid' : id < vs.length := hlength ▸ hid
    refine ⟨vs[id], ?_, ?_⟩
    · rw [hvalue, List.getElem?_eq_getElem hid']
    · have hamounts := hvalues.get (i := id) (by simpa using hid) hid'
      simp only [List.get_eq_getElem, List.getElem_range] at hamounts
      exact hamounts
  · rintro ⟨d, hd, name, hname⟩
    exact hs.cycles d ((hdiags d).mp hd) name hname
  · rintro ⟨a, ha⟩
    obtain ⟨b, ⟨d, hd, -⟩, -⟩ := TransGen.head'_iff.mp ha
    obtain ⟨id, hid, rfl, -⟩ := Package.exists_of_initializer? hd
    obtain ⟨d, hd, hcycle⟩ :=
      hcycled ⟨id, List.mem_range.mpr hid, Package.not_stands_of_reaches .refl ha⟩
    exact ⟨d, (hdiags d).mpr hd, hcycle⟩

/-- One value or no value, whichever it is, for all who look for it. -/
theorem Amounts.unique {P P' : Value → Prop} (h : Amounts P v) (h' : Amounts P' v')
    (hP : ∀ w, P w ↔ P' w) : v = v' := by
  obtain ⟨r, rfl, hr⟩ := h
  obtain ⟨r', rfl, hr'⟩ := h'
  rw [Option.ext fun w => (hr w).trans ((hP w).trans (hr' w).symm)]

/-- The values of globals with formulas do not depend on the order in which the globals
are declared. A cycle is reported if and only if some global refers to itself through
others, and all globals that lead to such a cycle are void. -/
theorem globals_stand_in_any_order (hp : p.HasFormulas) (hp' : p'.HasFormulas)
    (hperm : (p.globals.toList.map GlobalInfo.bare).Perm (p'.globals.toList.map GlobalInfo.bare))
    (o : Options) :
    ∃ levels, ∀ n ≥ levels, ∃ q found q' found',
      p.computeGlobals ⟨o, n⟩ = some (q, found) ∧ p'.computeGlobals ⟨o, n⟩ = some (q', found') ∧
      ((∃ d ∈ found.diags, ∃ name, d.problem = .cycle name) ↔
        ∃ a, TransGen (Refers p.initializer?) a a) ∧
      (∀ id < p.globals.size, ∀ a, ReflTransGen (Refers p.initializer?) (p.global id).name a →
        TransGen (Refers p.initializer?) a a → (q.global id).value = some .void) ∧
      ∀ id < p.globals.size, ∀ id' < p'.globals.size, (p.global id).name = (p'.global id').name →
        ∃ v, (q.global id).value = some v ∧ (q'.global id').value = some v := by
  refine ⟨max (room p 0 { reportGlobals := true }) (room p' 0 { reportGlobals := true }),
    fun n hn => ?_⟩
  obtain ⟨q, found, hrun, hvalues, hcycle⟩ := computeGlobals_amounts (o := o)
    (S := ⟨p.definitions, o.wordSize⟩) hp rfl (Nat.le_trans (Nat.le_max_left _ _) hn)
  obtain ⟨q', found', hrun', hvalues', -⟩ := computeGlobals_amounts (o := o)
    (S := ⟨p.definitions, o.wordSize⟩) hp' rfl (Nat.le_trans (Nat.le_max_right _ _) hn)
  refine ⟨q, found, q', found', hrun, hrun', hcycle, ?_, ?_⟩
  · intro id hid a hreach ha
    obtain ⟨_, hv, _ | v, rfl, hstands⟩ := hvalues id hid
    · exact hv
    · exact absurd ((hstands v).mp rfl) (Package.not_stands_of_reaches hreach ha v)
  · intro id hid id' hid' hname
    obtain ⟨v, hv, hamounts⟩ := hvalues id hid
    obtain ⟨v', hv', hamounts'⟩ := hvalues' id' hid'
    have hsame : ∀ w, p.Stands ⟨p.definitions, o.wordSize⟩ (p.global id).name w ↔
        p'.Stands ⟨p.definitions, o.wordSize⟩ (p'.global id').name w := fun w => by
      rw [hname]
      exact ⟨.transfer (Package.alike_of_perm hp' hperm),
        .transfer (Package.alike_of_perm hp hperm.symm)⟩
    cases hamounts.unique hamounts' hsame
    exact ⟨v, hv, hv'⟩

end All

/-- `a` is `b + 1`, `c` is `-d` and `d` is `a * c`, all at one place. -/
def sheetDecls (span : Span) : List Syntax.Item := [
  .global ⟨⟨"a", span⟩, true, false, none,
    .binary .add (.ident ⟨"b", span⟩) (.literal (.int 1) span) span, span⟩,
  .global ⟨⟨"b", span⟩, true, false, none, .literal (.int 200) span, span⟩,
  .global ⟨⟨"c", span⟩, false, true, none, .unary .neg (.ident ⟨"d", span⟩) span, span⟩,
  .global ⟨⟨"d", span⟩, false, true, none,
    .binary .mul (.ident ⟨"a", span⟩) (.ident ⟨"c", span⟩) span, span⟩]

def sheet : Package := (Package.collect [sheetDecls ⟨0, 1, 0⟩]).package

/-- The last first, and at another place. -/
def sheetReversed : Package := (Package.collect [(sheetDecls ⟨7, 9, 0⟩).reverse]).package

theorem hasFormulas_sheet : sheet.HasFormulas := by
  have ha : sheet.NamesGlobal "a" := ⟨0, by decide, rfl⟩
  have hb : sheet.NamesGlobal "b" := ⟨1, by decide, rfl⟩
  have hc : sheet.NamesGlobal "c" := ⟨2, by decide, rfl⟩
  have hd : sheet.NamesGlobal "d" := ⟨3, by decide, rfl⟩
  have hsize : sheet.globals.size = 4 := rfl
  constructor <;> intro id hid <;> rw [hsize] at hid
  case formula =>
    match id, hid with
    | 0, _ => exact .binary (.name hb) .literal
    | 1, _ => exact .literal
    | 2, _ => exact .unary rfl (.name hd)
    | 3, _ => exact .binary (.name ha) (.name hc)
  all_goals
    match id, hid with
    | 0, _ | 1, _ | 2, _ | 3, _ => rfl

theorem hasFormulas_sheetReversed : sheetReversed.HasFormulas := by
  have ha : sheetReversed.NamesGlobal "a" := ⟨3, by decide, rfl⟩
  have hb : sheetReversed.NamesGlobal "b" := ⟨2, by decide, rfl⟩
  have hc : sheetReversed.NamesGlobal "c" := ⟨1, by decide, rfl⟩
  have hd : sheetReversed.NamesGlobal "d" := ⟨0, by decide, rfl⟩
  have hsize : sheetReversed.globals.size = 4 := rfl
  constructor <;> intro id hid <;> rw [hsize] at hid
  case formula =>
    match id, hid with
    | 0, _ => exact .binary (.name ha) (.name hc)
    | 1, _ => exact .unary rfl (.name hd)
    | 2, _ => exact .literal
    | 3, _ => exact .binary (.name hb) .literal
  all_goals
    match id, hid with
    | 0, _ | 1, _ | 2, _ | 3, _ => rfl

theorem globals_stand_in_any_order_sheet : ∃ levels, ∀ n ≥ levels, ∃ q found q' found',
    sheet.computeGlobals ⟨{}, n⟩ = some (q, found) ∧
    sheetReversed.computeGlobals ⟨{}, n⟩ = some (q', found') ∧
    (∃ d ∈ found.diags, ∃ name, d.problem = .cycle name) ∧ (q.global 2).value = some .void ∧
    ∃ v, (q.global 0).value = some v ∧ (q'.global 3).value = some v := by
  have hperm : (sheet.globals.toList.map GlobalInfo.bare).Perm
      (sheetReversed.globals.toList.map GlobalInfo.bare) :=
    (List.reverse_perm (sheet.globals.toList.map GlobalInfo.bare)).symm
  have hcycle : TransGen (Refers sheet.initializer?) "c" "c" :=
    .tail (.single ⟨_, rfl, .operand .name⟩) ⟨_, rfl, .right .name⟩
  obtain ⟨levels, hlevels⟩ :=
    globals_stand_in_any_order hasFormulas_sheet hasFormulas_sheetReversed hperm {}
  refine ⟨levels, fun n hn => ?_⟩
  obtain ⟨q, found, q', found', hrun, hrun', hreported, hvoid, hsame⟩ := hlevels n hn
  exact ⟨q, found, q', found', hrun, hrun', hreported.mpr ⟨"c", hcycle⟩,
    hvoid 2 (by decide) "c" .refl hcycle, hsame 0 (by decide) 3 (by decide) rfl⟩

end Check

end JaneCheck
