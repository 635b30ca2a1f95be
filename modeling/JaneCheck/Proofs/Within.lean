import JaneCheck.Package

/-!
# Places of syntax trees

`Within P` says of a tree that `P` holds of every span in it at which a check may
report something. With "is a span of this file" for `P` it says that the tree
belongs to the file.
-/

namespace JaneCheck.Syntax

variable (P : Span → Prop)

/-- The places of an argument besides those in its value. -/
structure Argument.Placed (a : Argument ε) : Prop where
  place : P a.span
  name : ∀ n ∈ a.name, P n.span

mutual

inductive TypeExpr.Within : TypeExpr → Prop
  | named {name gs span} (ident : P name.span) (place : P span)
      (generics : ∀ g ∈ gs, TypeExpr.Within g) : TypeExpr.Within (.named name gs span)
  | pointer {t span} (place : P span) (target : TypeExpr.Within t) :
      TypeExpr.Within (.pointer t span)
  | reference {t span} (place : P span) (target : TypeExpr.Within t) :
      TypeExpr.Within (.reference t span)
  | rawPointer {span} (place : P span) : TypeExpr.Within (.rawPointer span)
  | slice {t span} (place : P span) (element : TypeExpr.Within t) : TypeExpr.Within (.slice t span)
  | array {n t span} (place : P span) (size : ∀ e ∈ n, Expr.Within e)
      (element : TypeExpr.Within t) : TypeExpr.Within (.array n t span)
  | map {k v span} (place : P span) (key : TypeExpr.Within k) (value : TypeExpr.Within v) :
      TypeExpr.Within (.map k v span)
  | function {ts variadic r span} (place : P span) (params : ∀ t ∈ ts, TypeExpr.Within t)
      (result : ∀ t ∈ r, TypeExpr.Within t) : TypeExpr.Within (.function ts variadic r span)
  | tuple {ts span} (place : P span) (components : ∀ t ∈ ts, TypeExpr.Within t) :
      TypeExpr.Within (.tuple ts span)

inductive Expr.Within : Expr → Prop
  | literal {value span} (place : P span) : Expr.Within (.literal value span)
  | ident {name} (place : P name.span) : Expr.Within (.ident name)
  | generic {name gs span} (place : P span) (generics : ∀ g ∈ gs, TypeExpr.Within g)
      (ident : P name.span) : Expr.Within (.generic name gs span)
  | binary {op l r span} (place : P span) (left : Expr.Within l) (right : Expr.Within r) :
      Expr.Within (.binary op l r span)
  | unary {op e span} (place : P span) (operand : Expr.Within e) : Expr.Within (.unary op e span)
  | call {f span} {as : List Arg} (place : P span) (callee : Expr.Within f)
      (args : ∀ a ∈ as, Expr.Within a.value) (places : ∀ a ∈ as, a.Placed P) :
      Expr.Within (.call f as span)
  | field {e name span} (place : P span) (base : Expr.Within e) (ident : P name.span) :
      Expr.Within (.field e name span)
  | index {e i span} (place : P span) (base : Expr.Within e) (index : Expr.Within i) :
      Expr.Within (.index e i span)
  | structLit {name gs span} {as : List Arg} (place : P span)
      (generics : ∀ g ∈ gs, TypeExpr.Within g) (args : ∀ a ∈ as, Expr.Within a.value)
      (places : ∀ a ∈ as, a.Placed P) (ident : P name.span) :
      Expr.Within (.structLit name gs as span)
  | array {es span} (place : P span) (elements : ∀ e ∈ es, Expr.Within e) :
      Expr.Within (.array es span)
  | cast {e t span} (place : P span) (operand : Expr.Within e) (target : TypeExpr.Within t) :
      Expr.Within (.cast e t span)
  | spread {e span} (place : P span) (operand : Expr.Within e) : Expr.Within (.spread e span)

end

variable {P}

theorem TypeExpr.Within.span {t : TypeExpr} (h : t.Within P) : P t.span := by
  cases h <;> assumption

theorem Expr.Within.span {e : Expr} (h : e.Within P) : P e.span := by
  cases h <;> assumption

theorem sizeOf_value_lt (a : Arg) : sizeOf a.value < sizeOf a := by
  cases a
  simp only [Argument.mk.sizeOf_spec]
  omega

mutual

theorem TypeExpr.within_of_forall (h : ∀ s, P s) (t : TypeExpr) : t.Within P := by
  match t with
  | .named _ gs _ => exact .named (h _) (h _) fun g _ => g.within_of_forall h
  | .pointer t _ => exact .pointer (h _) (t.within_of_forall h)
  | .reference t _ => exact .reference (h _) (t.within_of_forall h)
  | .rawPointer _ => exact .rawPointer (h _)
  | .slice t _ => exact .slice (h _) (t.within_of_forall h)
  | .array none t _ => exact .array (h _) nofun (t.within_of_forall h)
  | .array (some e) t _ =>
    exact .array (h _) (by rintro _ ⟨⟩; exact e.within_of_forall h) (t.within_of_forall h)
  | .map k v _ => exact .map (h _) (k.within_of_forall h) (v.within_of_forall h)
  | .function ts _ none _ => exact .function (h _) (fun t _ => t.within_of_forall h) nofun
  | .function ts _ (some r) _ =>
    exact .function (h _) (fun t _ => t.within_of_forall h) (by rintro _ ⟨⟩; exact r.within_of_forall h)
  | .tuple ts _ => exact .tuple (h _) fun t _ => t.within_of_forall h
termination_by sizeOf t

theorem Expr.within_of_forall (h : ∀ s, P s) (e : Expr) : e.Within P := by
  match e with
  | .literal _ _ => exact .literal (h _)
  | .ident _ => exact .ident (h _)
  | .generic _ gs _ => exact .generic (h _) (fun g _ => g.within_of_forall h) (h _)
  | .binary _ l r _ => exact .binary (h _) (l.within_of_forall h) (r.within_of_forall h)
  | .unary _ e _ => exact .unary (h _) (e.within_of_forall h)
  | .call f args _ =>
    exact .call (h _) (f.within_of_forall h) (fun a _ => a.value.within_of_forall h)
      fun _ _ => ⟨h _, fun _ _ => h _⟩
  | .field e _ _ => exact .field (h _) (e.within_of_forall h) (h _)
  | .index e i _ => exact .index (h _) (e.within_of_forall h) (i.within_of_forall h)
  | .structLit _ gs args _ =>
    exact .structLit (h _) (fun g _ => g.within_of_forall h) (fun a _ => a.value.within_of_forall h)
      (fun _ _ => ⟨h _, fun _ _ => h _⟩) (h _)
  | .array es _ => exact .array (h _) fun e _ => e.within_of_forall h
  | .cast e t _ => exact .cast (h _) (e.within_of_forall h) (t.within_of_forall h)
  | .spread e _ => exact .spread (h _) (e.within_of_forall h)
termination_by sizeOf e
decreasing_by
  all_goals try decreasing_tactic
  all_goals
    have hmem := List.sizeOf_lt_of_mem ‹a ∈ args›
    have hvalue := sizeOf_value_lt a
    simp
    omega

end

variable (P)

/-! ## Statements -/

structure TypeAlias.Within (a : TypeAlias) : Prop where
  name : P a.name.span
  target : a.target.Within P

inductive LoopKind.Within : LoopKind → Prop
  | forever : LoopKind.Within .forever
  | whileTrue {e} (cond : Expr.Within P e) : LoopKind.Within (.whileTrue e)
  | forEach {vars : List Ident} {e} (subject : Expr.Within P e) (idents : ∀ v ∈ vars, P v.span) :
      LoopKind.Within (.forEach vars e)

inductive Stmt.Within : Stmt → Prop
  | declare {name mutable constant t v span} (type : ∀ u ∈ t, TypeExpr.Within P u)
      (value : ∀ e ∈ v, Expr.Within P e) (ident : P name.span) (place : P span) :
      Stmt.Within (.declare name mutable constant t v span)
  | declareMany {names es span} (values : ∀ e ∈ es, Expr.Within P e)
      (idents : ∀ n ∈ names, P n.name.span) (place : P span) :
      Stmt.Within (.declareMany names es span)
  | assign {es op vs span} (targets : ∀ e ∈ es, Expr.Within P e)
      (values : ∀ e ∈ vs, Expr.Within P e) (place : P span) : Stmt.Within (.assign es op vs span)
  | step {e increment span} (target : Expr.Within P e) (place : P span) :
      Stmt.Within (.step e increment span)
  | expr {e} (value : Expr.Within P e) : Stmt.Within (.expr e)
  | ret {es span} (values : ∀ e ∈ es, Expr.Within P e) (place : P span) :
      Stmt.Within (.ret es span)
  | branch {bs : List (Branch Stmt)} {o : Option Body} {span}
      (conds : ∀ b ∈ bs, Expr.Within P b.cond)
      (bodies : ∀ b ∈ bs, ∀ s ∈ b.body.stmts, Stmt.Within s)
      (otherwise : ∀ b ∈ o, ∀ s ∈ b.stmts, Stmt.Within s) : Stmt.Within (.branch bs o span)
  | loop {k span} {b : Body} (kind : LoopKind.Within P k)
      (body : ∀ s ∈ b.stmts, Stmt.Within s) : Stmt.Within (.loop k b span)
  | select {e span} {cs : List (Case Stmt)} {o : Option (Case Stmt)}
      (subject : ∀ e' ∈ e, Expr.Within P e')
      (exprs : ∀ c ∈ cs, ∀ e ∈ c.exprs, Expr.Within P e)
      (bodies : ∀ c ∈ cs, ∀ s ∈ c.body.stmts, Stmt.Within s)
      (lastExprs : ∀ c ∈ o, ∀ e ∈ c.exprs, Expr.Within P e)
      (lastBody : ∀ c ∈ o, ∀ s ∈ c.body.stmts, Stmt.Within s) :
      Stmt.Within (.select e cs o span)
  | leave {label : Option Ident} {span} (ident : ∀ l ∈ label, P l.span) (place : P span) :
      Stmt.Within (.leave label span)
  | again {label : Option Ident} {span} (ident : ∀ l ∈ label, P l.span) (place : P span) :
      Stmt.Within (.again label span)
  | goto {label span} (place : P span) : Stmt.Within (.goto label span)
  | label {name span} (place : P span) : Stmt.Within (.label name span)
  | fallthrough {span} (place : P span) : Stmt.Within (.fallthrough span)
  | block {b : Body} (body : ∀ s ∈ b.stmts, Stmt.Within s) : Stmt.Within (.block b)
  | typeAlias {a} (decl : TypeAlias.Within P a) : Stmt.Within (.typeAlias a)

/-! ## Items -/

structure Param.Within (p : Param) : Prop where
  name : P p.name.span
  type : p.type.Within P
  default : ∀ e ∈ p.default, e.Within P
  place : P p.span

structure Function.Within (f : Function) : Prop where
  name : P f.name.span
  generics : ∀ g ∈ f.generics, P g.span
  receiver : ∀ r ∈ f.receiver, P r.span
  params : ∀ p ∈ f.params, p.Within P
  ret : ∀ t ∈ f.ret.type, t.Within P
  results : ∀ n ∈ f.ret.names, P n.span
  body : ∀ s ∈ f.body.stmts, s.Within P
  place : P f.body.span

structure Field.Within (f : Field) : Prop where
  name : P f.name.span
  type : f.type.Within P
  default : ∀ e ∈ f.default, e.Within P

structure EnumItem.Within (i : EnumItem) : Prop where
  name : P i.name.span
  value : ∀ e ∈ i.value, e.Within P

structure EnumDef.Within (d : EnumDef) : Prop where
  name : P d.name.span
  base : ∀ t ∈ d.base, t.Within P
  items : ∀ i ∈ d.items, i.Within P

structure MethodSig.Within (m : MethodSig) : Prop where
  name : P m.name.span
  params : ∀ p ∈ m.params, p.Within P
  ret : ∀ t ∈ m.ret.type, t.Within P

structure ImplBlock.Within (b : ImplBlock) : Prop where
  target : P b.target.span
  traitName : ∀ n ∈ b.traitName, P n.span
  methods : ∀ f ∈ b.methods, f.Within P
  place : P b.span

structure GlobalDef.Within (d : GlobalDef) : Prop where
  name : P d.name.span
  type : ∀ t ∈ d.type, t.Within P
  value : d.value.Within P
  place : P d.span

inductive Item.Within : Item → Prop
  | function {d} (body : Function.Within P d) : Item.Within (.function d)
  | struct {d : StructDef} (name : P d.name.span) (fields : ∀ f ∈ d.fields, f.Within P) :
      Item.Within (.struct d)
  | enum {d} (items : EnumDef.Within P d) : Item.Within (.enum d)
  | trait {d : TraitDef} (name : P d.name.span) (methods : ∀ m ∈ d.methods, m.Within P) :
      Item.Within (.trait d)
  | impl {b} (block : ImplBlock.Within P b) : Item.Within (.impl b)
  | typeAlias {a} (decl : TypeAlias.Within P a) : Item.Within (.typeAlias a)
  | global {d} (value : GlobalDef.Within P d) : Item.Within (.global d)

/-! ## Trees of which all spans will do -/

section Forall

variable {P} (h : ∀ s, P s)

include h

theorem Stmt.within_of_forall (x : Stmt) : x.Within P := by
  have hexprs (es : List Expr) : ∀ e ∈ es, e.Within P := fun e _ => e.within_of_forall h
  match x with
  | .declare .. =>
    exact .declare (fun t _ => t.within_of_forall h) (fun e _ => e.within_of_forall h) (h _) (h _)
  | .declareMany .. => exact .declareMany (hexprs _) (fun _ _ => h _) (h _)
  | .assign .. => exact .assign (hexprs _) (hexprs _) (h _)
  | .step e .. => exact .step (e.within_of_forall h) (h _)
  | .expr e => exact .expr (e.within_of_forall h)
  | .ret .. => exact .ret (hexprs _) (h _)
  | .branch bs o _ =>
    exact .branch (fun b _ => b.cond.within_of_forall h) (fun b hb s hs => s.within_of_forall)
      fun b hb s hs => s.within_of_forall
  | .loop k b _ =>
    refine .loop ?_ fun s hs => s.within_of_forall
    cases k with
    | forever => exact .forever
    | whileTrue e => exact .whileTrue (e.within_of_forall h)
    | forEach vars e => exact .forEach (e.within_of_forall h) fun _ _ => h _
  | .select e cs o _ =>
    exact .select (fun e _ => e.within_of_forall h) (fun _ _ => hexprs _)
      (fun c hc s hs => s.within_of_forall) (fun _ _ => hexprs _) fun c hc s hs => s.within_of_forall
  | .leave .. => exact .leave (fun _ _ => h _) (h _)
  | .again .. => exact .again (fun _ _ => h _) (h _)
  | .goto .. => exact .goto (h _)
  | .label .. => exact .label (h _)
  | .fallthrough _ => exact .fallthrough (h _)
  | .block b => exact .block fun s hs => s.within_of_forall
  | .typeAlias a => exact .typeAlias ⟨h _, a.target.within_of_forall h⟩
termination_by sizeOf x
decreasing_by
  all_goals
    grind [→ List.sizeOf_lt_of_mem, Option.mem_def, Stmt.branch.sizeOf_spec, Stmt.loop.sizeOf_spec,
      Stmt.select.sizeOf_spec, Stmt.block.sizeOf_spec, Option.some.sizeOf_spec, Block.mk.sizeOf_spec,
      Branch.mk.sizeOf_spec, Case.mk.sizeOf_spec, cases Block, cases Branch, cases Case]

theorem Param.within_of_forall (p : Param) : p.Within P :=
  ⟨h _, p.type.within_of_forall h, fun e _ => e.within_of_forall h, h _⟩

theorem Function.within_of_forall (f : Function) : f.Within P where
  name := h _
  generics _ _ := h _
  receiver _ _ := h _
  params p _ := p.within_of_forall h
  ret t _ := t.within_of_forall h
  results _ _ := h _
  body s _ := s.within_of_forall h
  place := h _

theorem Field.within_of_forall (f : Field) : f.Within P :=
  ⟨h _, f.type.within_of_forall h, fun e _ => e.within_of_forall h⟩

theorem EnumDef.within_of_forall (d : EnumDef) : d.Within P :=
  ⟨h _, fun t _ => t.within_of_forall h, fun _ _ => ⟨h _, fun e _ => e.within_of_forall h⟩⟩

theorem MethodSig.within_of_forall (m : MethodSig) : m.Within P :=
  ⟨h _, fun p _ => p.within_of_forall h, fun t _ => t.within_of_forall h⟩

end Forall

end JaneCheck.Syntax

/-- The declarations of a table lie within `P`, and its blocks have methods in
the table. -/
structure JaneCheck.Package.Within (P : Span → Prop) (p : Package) : Prop where
  structNames : ∀ s ∈ p.structs, P s.decl.name.span
  enums : ∀ e ∈ p.enums, e.decl.Within P
  funcs : ∀ f ∈ p.funcs, f.decl.Within P
  aliases : ∀ a ∈ p.aliases, a.decl.Within P
  globals : ∀ g ∈ p.globals, g.decl.Within P
  impls : ∀ i ∈ p.impls, P i.span ∧ ∀ m ∈ i.methods, m < p.funcs.size
