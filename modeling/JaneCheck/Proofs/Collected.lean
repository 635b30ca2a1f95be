import JaneCheck.Package.Collect
import JaneCheck.Proofs.Within

/-!
# Tables of declarations

What `collect` makes of the items of all files: a table in which every entry has its
declaration and nothing is resolved (`Entered`). Every name leads to an entry of that name,
and every entry is found under its name; a struct lists the methods that have it as their
owner, under names of their own (`Consistent`). Each declaration is entered or reported, and
so is each method of a block whose struct and trait are known (`collect_consistent`).
-/

namespace JaneCheck

open Syntax (Function Ident ImplBlock Item Program)

namespace Package

/-! ## Tables -/

/-- The name of the entry that a meaning stands for. A method is no entry of its own. -/
def entryName? (p : Package) : Meaning → Option String
  | .struct id => p.structs[id]?.map (·.name)
  | .trait id => p.traits[id]?.map (·.name)
  | .enum id => p.enums[id]?.map (·.name)
  | .func id => (p.funcs[id]?.filter (·.owner.isNone)).map (·.name)
  | .typeAlias id => p.aliases[id]?.map (·.name)
  | .global id => p.globals[id]?.map (·.name)

/-- Methods and their structs know each other, and what implements a trait is noted. -/
structure Owned (p : Package) : Prop where
  owners : ∀ f ∈ p.funcs, ∀ owner ∈ f.owner, owner < p.structs.size
  methods : ∀ (i : StructId) (s : StructInfo), p.structs[i]? = some s → ∀ name id,
    (name, id) ∈ s.methods ↔ ∃ f, p.funcs[id]? = some f ∧ f.owner = some i ∧ f.name = name
  members : ∀ s ∈ p.structs, (s.methods.map (·.1)).Nodup ∧
    ∀ m ∈ s.methods, ∀ f ∈ s.decl.fields, f.name.name ≠ m.1
  impls : ∀ i ∈ p.impls, (∃ s, p.structs[i.owner]? = some s ∧ i.trait ∈ s.traits) ∧
    ∀ id ∈ i.methods, ∃ f, p.funcs[id]? = some f ∧ f.owner = some i.owner

structure Consistent (p : Package) : Prop extends Owned p where
  names : ∀ name m, p.lookup? name = some m ↔ p.entryName? m = some name

/-- The declarations lie within `P` and in files of `F`, and no entry has more
than its declaration says. -/
structure Entered (P : Span → Prop) (F : Nat → Prop) (p : Package) : Prop where
  structs : ∀ s ∈ p.structs, s.fields = [] ∧ ∀ f ∈ s.decl.fields, f.Within P
  traits : ∀ t ∈ p.traits, t.methods = [] ∧ ∀ m ∈ t.decl.methods, m.Within P
  enums : ∀ e ∈ p.enums, e.base = .base .u32 ∧ e.decl.Within P
  funcs : ∀ f ∈ p.funcs, (f.sig.params = [] ∧ f.sig.ret = .void) ∧ f.decl.Within P
  aliases : ∀ a ∈ p.aliases, a.type = none ∧ a.decl.Within P
  globals : ∀ g ∈ p.globals, g.value = none ∧ g.decl.Within P
  structFiles : ∀ s ∈ p.structs, F s.file
  structNames : ∀ s ∈ p.structs, P s.decl.name.span
  traitFiles : ∀ t ∈ p.traits, F t.file
  funcFiles : ∀ f ∈ p.funcs, F f.file
  funcSafety : ∀ f ∈ p.funcs, f.sig.isUnsafe = f.decl.isUnsafe
  implSpans : ∀ i ∈ p.impls, P i.span
  unbroken : p.brokenAliases = []

structure Declared (P : Span → Prop) (F : Nat → Prop) (p : Package) : Prop extends
  Consistent p, Entered P F p

section Lookup

variable {p : Package} (hp : p.Consistent) {name : String} {id : Nat}

include hp

/-! A name leads into the table. -/

theorem Consistent.lt_structs (h : p.lookup? name = some (.struct id)) : id < p.structs.size := by
  have hentry := (hp.names _ _).mp h
  grind [entryName?]

theorem Consistent.lt_funcs (h : p.lookup? name = some (.func id)) : id < p.funcs.size := by
  have hentry := (hp.names _ _).mp h
  grind [entryName?]

theorem Consistent.lt_aliases (h : p.lookup? name = some (.typeAlias id)) : id < p.aliases.size := by
  have hentry := (hp.names _ _).mp h
  grind [entryName?]

theorem Consistent.lt_globals (h : p.lookup? name = some (.global id)) : id < p.globals.size := by
  have hentry := (hp.names _ _).mp h
  grind [entryName?]

end Lookup

theorem lookup?_cons (p : Package) (name : String) (m : Meaning) (other : String) :
    { p with names := (name, m) :: p.names }.lookup? other =
      if name = other then some m else p.lookup? other := by
  unfold lookup?
  by_cases h : name = other
  · simp [h]
  · simp [h, List.find?_cons_of_neg]

/-- The entries of all kinds. -/
def size (p : Package) : Nat :=
  p.structs.size + p.traits.size + p.enums.size + p.funcs.size + p.aliases.size + p.globals.size

/-! ## Entries -/

section Arrays

variable {Q : α → Prop} {as : Array α} {i : Nat}

theorem forall_push {a : α} (h : ∀ b ∈ as, Q b) (ha : Q a) : ∀ b ∈ as.push a, Q b := by
  intro b hb
  rcases Array.mem_push.mp hb with hb | rfl
  · exact h b hb
  · exact ha

theorem getElem?_push_iff {a b : α} :
    (as.push a)[i]? = some b ↔ i = as.size ∧ a = b ∨ as[i]? = some b := by
  grind

theorem getElem?_modify_iff {f : α → α} {j : Nat} {b : α} :
    (as.modify i f)[j]? = some b ↔ ∃ a, as[j]? = some a ∧ (if i = j then f a else a) = b := by
  grind

theorem forall_mem_modify {f : α → α} (h : ∀ b ∈ as, Q b) (hf : ∀ b, Q b → Q (f b)) :
    ∀ b ∈ as.modify i f, Q b := by
  intro b hb
  obtain ⟨j, hj⟩ := Array.mem_iff_getElem?.mp hb
  obtain ⟨a, ha, rfl⟩ := getElem?_modify_iff.mp hj
  split
  · exact hf a (h a (Array.mem_of_getElem? ha))
  · exact h a (Array.mem_of_getElem? ha)

theorem forall_mem_foldl_modify {es : List (Nat × β)} {f : β → α → α} (h : ∀ a ∈ as, Q a)
    (hf : ∀ b a, Q a → Q (f b a)) : ∀ a ∈ es.foldl (fun as e => as.modify e.1 (f e.2)) as, Q a :=
  List.foldlRecOn (motive := fun as : Array α => ∀ a ∈ as, Q a) es _ h fun _ has e _ =>
    forall_mem_modify has (hf e.2)

theorem size_foldl_modify (es : List (Nat × β)) (f : β → α → α) (as : Array α) :
    (es.foldl (fun as e => as.modify e.1 (f e.2)) as).size = as.size :=
  List.foldlRecOn (motive := fun bs : Array α => bs.size = as.size) es _ rfl fun _ hbs _ _ =>
    Array.size_modify.trans hbs

end Arrays

namespace Collected

/-- All that was reported lies within `P`. -/
def Reports (P : Span → Prop) (c : Collected) : Prop := ∀ d ∈ c.diags, P d.span

/-- The table has declarations only, and what was reported lies within `P`. -/
structure Sound (P : Span → Prop) (F : Nat → Prop) (c : Collected) : Prop where
  table : c.package.Declared P F
  reports : c.Reports P

/-- How many names were found taken. -/
def taken (c : Collected) : Nat := c.diags.toList.countP (·.problem.key == "exist_id")

/-- What is offered is entered or its name is taken, and the table stays consistent. With `H`
the entries stay where they may be. -/
structure Grows (P : Span → Prop) (F : Nat → Prop) (H : Prop) (c c' : Collected)
    (offered : List Ident) : Prop where
  consistent : c.package.Consistent → c'.package.Consistent
  counted : c'.package.size + c'.taken = c.package.size + c.taken + offered.length
  entered : H → c.package.Entered P F → c'.package.Entered P F
  reports : H → c.Reports P → c'.Reports P

variable {P : Span → Prop} {F : Nat → Prop} {H : Prop} {c c' : Collected} {xs ys : List Ident}

theorem Grows.refl (c : Collected) : Grows P F H c c [] := ⟨id, rfl, fun _ => id, fun _ => id⟩

theorem Grows.trans {c'' : Collected} (h : Grows P F H c c' xs) (h' : Grows P F H c' c'' ys) :
    Grows P F H c c'' (xs ++ ys) where
  consistent := h'.consistent ∘ h.consistent
  counted := by rw [h'.counted, h.counted, List.length_append, Nat.add_assoc]
  entered hH := h'.entered hH ∘ h.entered hH
  reports hH := h'.reports hH ∘ h.reports hH

theorem Grows.congr {G : Prop} (h : Grows P F H c c' xs) (hG : G → H)
    (he : xs.length = ys.length) : Grows P F G c c' ys :=
  ⟨h.consistent, he ▸ h.counted, h.entered ∘ hG, h.reports ∘ hG⟩

theorem grows_foldl {add : Collected → α → Collected} {w : α → List Ident} {I : Collected → Prop}
    {ds : List α} (hc : I c)
    (h : ∀ c, I c → ∀ d ∈ ds, Grows P F H c (add c d) (w d) ∧ I (add c d)) :
    Grows P F H c (ds.foldl add c) (ds.flatMap w) ∧ I (ds.foldl add c) := by
  induction ds generalizing c with
  | nil => exact ⟨.refl c, hc⟩
  | cons d ds ih =>
    obtain ⟨hd, hI⟩ := h c hc d List.mem_cons_self
    obtain ⟨hds, hI⟩ := ih hI fun c hc d hd => h c hc d (List.mem_cons_of_mem _ hd)
    exact ⟨hd.trans hds, hI⟩

theorem grows_taken (c : Collected) {name : Ident} (hname : H → P name.span) :
    Grows P F H c (c.report (.nameTaken name.name) name.span) [name] := by
  refine ⟨id, ?_, fun _ => id, fun hH hc => forall_push hc (hname hH)⟩
  simp only [report, taken, Array.toList_push, List.countP_append]
  rfl

/-! ## Declarations of a file -/

/-- A declaration enters one entry, under a number that is new. -/
theorem grows_declare {name : Ident} {m : Meaning} {add : Package → Package}
    (hsize : (add c.package).size = c.package.size + 1)
    (hnames : (add c.package).names = c.package.names)
    (hentry : ∀ m', (add c.package).entryName? m' =
      if m' = m then some name.name else c.package.entryName? m')
    (hnew : c.package.entryName? m = none)
    (howned : c.package.Owned → (add c.package).Owned)
    (hH : H → P name.span ∧ (c.package.Entered P F → (add c.package).Entered P F)) :
    Grows P F H c (c.declare name m add) [name] := by
  unfold declare
  split
  · exact grows_taken c fun h => (hH h).1
  next hfree =>
    refine ⟨fun hc => { howned hc.toOwned with names := fun other m' => ?_ }, ?_,
      fun h hc => { (hH h).2 hc with }, fun _ => id⟩
    · have hlookup : (add c.package).lookup? other = c.package.lookup? other := by
        rw [lookup?, lookup?, hnames]
      have hother := hc.names other m'
      rw [lookup?_cons, hlookup]
      change _ ↔ (add c.package).entryName? m' = some other
      rw [hentry]
      grind
    · change (add c.package).size + c.taken = _
      rw [hsize, List.length_singleton]
      omega

section Add

variable (file : Nat) (c : Collected)

theorem grows_addStruct (d : Syntax.StructDef) :
    Grows P F ((Item.struct d).Within P ∧ F file) c (c.addStruct file d) [d.name] := by
  unfold addStruct
  refine grows_declare ?_ rfl (fun m' => ?_) ?_ (fun h => ?_) ?_
  · grind [size]
  · cases m' <;> grind [entryName?]
  · grind [entryName?]
  · obtain ⟨owners, methods, members, impls⟩ := h
    constructor <;> grind
  · rintro ⟨hd, hfile⟩
    cases hd with
    | struct hname hd => exact ⟨hname, fun h => { h with
        structs := forall_push h.structs ⟨rfl, hd⟩
        structFiles := forall_push h.structFiles hfile
        structNames := forall_push h.structNames hname }⟩

theorem grows_addFunc (d : Function) :
    Grows P F ((Item.function d).Within P ∧ F file) c (c.addFunc file d) [d.name] := by
  refine grows_declare ?_ rfl (fun m' => ?_) ?_ (fun h => ?_) ?_
  · grind [size]
  · cases m' <;> grind [entryName?, funcInfo]
  · grind [entryName?]
  · obtain ⟨owners, methods, members, impls⟩ := h
    constructor <;> grind [funcInfo]
  · rintro ⟨hd, hfile⟩
    cases hd with
    | function hd => exact ⟨hd.name, fun h => { h with
        funcs := forall_push h.funcs ⟨⟨rfl, rfl⟩, hd⟩
        funcFiles := forall_push h.funcFiles hfile
        funcSafety := forall_push h.funcSafety rfl }⟩

theorem grows_addTrait (d : Syntax.TraitDef) :
    Grows P F ((Item.trait d).Within P ∧ F file) c (c.addTrait file d) [d.name] := by
  unfold addTrait
  refine grows_declare ?_ rfl (fun m' => ?_) ?_ (fun h => { h with }) ?_
  · grind [size]
  · cases m' <;> grind [entryName?]
  · grind [entryName?]
  · rintro ⟨hd, hfile⟩
    cases hd with
    | trait hname hd => exact ⟨hname, fun h => { h with
        traits := forall_push h.traits ⟨rfl, hd⟩, traitFiles := forall_push h.traitFiles hfile }⟩

theorem grows_addEnum (d : Syntax.EnumDef) :
    Grows P F ((Item.enum d).Within P ∧ F file) c (c.addEnum file d) [d.name] := by
  unfold addEnum
  refine grows_declare ?_ rfl (fun m' => ?_) ?_ (fun h => { h with }) ?_
  · grind [size]
  · cases m' <;> grind [entryName?]
  · grind [entryName?]
  · rintro ⟨hd, -⟩
    cases hd with
    | enum hd => exact ⟨hd.name, fun h => { h with enums := forall_push h.enums ⟨rfl, hd⟩ }⟩

theorem grows_addAlias (d : Syntax.TypeAlias) :
    Grows P F ((Item.typeAlias d).Within P ∧ F file) c (c.addAlias file d) [d.name] := by
  unfold addAlias
  refine grows_declare ?_ rfl (fun m' => ?_) ?_ (fun h => { h with }) ?_
  · grind [size]
  · cases m' <;> grind [entryName?]
  · grind [entryName?]
  · rintro ⟨hd, -⟩
    cases hd with
    | typeAlias hd => exact ⟨hd.name, fun h => { h with aliases := forall_push h.aliases ⟨rfl, hd⟩ }⟩

theorem grows_addGlobal (d : Syntax.GlobalDef) :
    Grows P F ((Item.global d).Within P ∧ F file) c (c.addGlobal file d) [d.name] := by
  unfold addGlobal
  refine grows_declare ?_ rfl (fun m' => ?_) ?_ (fun h => { h with }) ?_
  · grind [size]
  · cases m' <;> grind [entryName?]
  · grind [entryName?]
  · rintro ⟨hd, -⟩
    cases hd with
    | global hd => exact ⟨hd.name, fun h => { h with globals := forall_push h.globals ⟨rfl, hd⟩ }⟩

end Add

/-! ## Methods -/

/-- A method enters the table of functions and the list of its struct. -/
def withMethod (p : Package) (file : Nat) (owner : StructId) (d : Function) : Package :=
  { p with
    structs := p.structs.modify owner fun s =>
      { s with methods := (d.name.name, p.funcs.size) :: s.methods }
    funcs := p.funcs.push (funcInfo file (some owner) d) }

section Methods

variable {p : Package} {file : Nat} {owner : StructId} {d : Function}

theorem consistent_withMethod {s : StructInfo} (hp : p.Consistent)
    (hs : p.structs[owner]? = some s) (hfree : memberTaken s d.name.name = false) :
    (withMethod p file owner d).Consistent := by
  obtain ⟨⟨owners, methods, members, impls⟩, names⟩ := hp
  simp only [memberTaken, Bool.or_eq_false_iff, Option.isSome_eq_false_iff, Option.isNone_iff_eq_none,
    List.lookup_eq_none_iff, List.any_eq_false, beq_iff_eq, bne_iff_ne] at hfree
  unfold withMethod
  refine ⟨⟨?_, fun i s' hs' name id => ?_, fun s' hs' => ?_, ?_⟩, fun name m => ?_⟩
  · grind [funcInfo]
  · obtain ⟨s0, hs0, rfl⟩ := getElem?_modify_iff.mp hs'
    have hmethod := methods i s0 hs0 name id
    simp only [getElem?_push_iff, or_and_right, exists_or]
    split
    · rw [List.mem_cons, hmethod]
      grind [funcInfo]
    · rw [hmethod]
      grind [funcInfo]
  · obtain ⟨i, hi⟩ := Array.mem_iff_getElem?.mp hs'
    obtain ⟨s0, hs0, rfl⟩ := getElem?_modify_iff.mp hi
    obtain ⟨hnodup, hfields⟩ := members s0 (Array.mem_of_getElem? hs0)
    split
    next howner =>
      subst howner
      cases hs.symm.trans hs0
      refine ⟨List.nodup_cons.mpr ⟨?_, hnodup⟩, List.forall_mem_cons.mpr ⟨hfree.2, hfields⟩⟩
      grind
    next => exact ⟨hnodup, hfields⟩
  · grind
  · refine (names name m).trans ?_
    cases m <;> grind [entryName?, funcInfo]

theorem entered_modifyStruct (hp : p.Entered P F) (owner : StructId) (f : StructInfo → StructInfo)
    (hf : ∀ s, (f s).fields = s.fields ∧ (f s).decl = s.decl ∧ (f s).file = s.file) :
    Entered P F { p with structs := p.structs.modify owner f } :=
  { hp with
    structs := forall_mem_modify hp.structs fun s h => by rwa [(hf s).1, (hf s).2.1]
    structFiles := forall_mem_modify hp.structFiles fun s h => (hf s).2.2 ▸ h
    structNames := forall_mem_modify hp.structNames fun s h => (hf s).2.1 ▸ h }

theorem entered_withMethod (hp : p.Entered P F) (hd : d.Within P) (hfile : F file) :
    (withMethod p file owner d).Entered P F :=
  { entered_modifyStruct hp owner (fun s =>
      { s with methods := (d.name.name, p.funcs.size) :: s.methods }) fun _ => ⟨rfl, rfl, rfl⟩ with
    funcs := forall_push hp.funcs ⟨⟨rfl, rfl⟩, hd⟩
    funcFiles := forall_push hp.funcFiles hfile
    funcSafety := forall_push hp.funcSafety rfl }

end Methods

/-- Names, structs and functions stay where they are. -/
structure Keeps (c c' : Collected) : Prop where
  names : c'.package.names = c.package.names
  structs : c'.package.structs.size = c.package.structs.size
  funcs : ∀ (id : FuncId) (f : FuncInfo), c.package.funcs[id]? = some f →
    c'.package.funcs[id]? = some f

theorem Keeps.trans {c'' : Collected} (h : Keeps c c') (h' : Keeps c' c'') : Keeps c c'' :=
  ⟨h'.names.trans h.names, h'.structs.trans h.structs,
    fun id f hf => h'.funcs id f (h.funcs id f hf)⟩

theorem grows_addMethods {file : Nat} {owner : StructId} (ds : List Function)
    (howner : owner < c.package.structs.size) :
    Grows P F ((∀ d ∈ ds, d.Within P) ∧ F file) c (addMethods file owner ds c).1 (ds.map (·.name)) ∧
      Keeps c (addMethods file owner ds c).1 ∧ ∀ id ∈ (addMethods file owner ds c).2,
        ∃ f, (addMethods file owner ds c).1.package.funcs[id]? = some f ∧ f.owner = some owner := by
  induction ds generalizing c with
  | nil => exact ⟨.refl c, ⟨rfl, rfl, fun _ _ => id⟩, by simp [addMethods]⟩
  | cons d ds ih =>
    have htail (h : (∀ d' ∈ d :: ds, d'.Within P) ∧ F file) : (∀ d' ∈ ds, d'.Within P) ∧ F file :=
      h.imp_left fun h d' hd' => h d' (List.mem_cons_of_mem _ hd')
    have hhead (h : (∀ d' ∈ d :: ds, d'.Within P) ∧ F file) : d.Within P := h.1 d List.mem_cons_self
    unfold addMethods
    dsimp only
    split
    · have htaken := grows_taken (F := F) c fun h => (hhead h).name
      obtain ⟨hgrows, hkeeps, hids⟩ := @ih (c.report (.nameTaken d.name.name) d.name.span) howner
      exact ⟨htaken.trans (hgrows.congr htail rfl), { hkeeps with }, hids⟩
    next hfree =>
      let c1 : Collected := { c with package := withMethod c.package file owner d }
      have hs : c.package.structs[owner]? = some (c.package.struct owner) := by
        simp [Package.struct, howner]
      have hone : Grows P F ((∀ d' ∈ d :: ds, d'.Within P) ∧ F file) c c1 [d.name] := by
        refine ⟨fun hc => consistent_withMethod hc hs (by simpa using hfree), ?_,
          fun h hc => entered_withMethod hc (hhead h) h.2, fun _ => id⟩
        grind [size, taken, withMethod]
      have hpush : ∀ (id : FuncId) (f : FuncInfo), c.package.funcs[id]? = some f →
          c1.package.funcs[id]? = some f := fun id f h => getElem?_push_iff.mpr (.inr h)
      obtain ⟨hgrows, hkeeps, hids⟩ := @ih c1 (by simpa [c1, withMethod] using howner)
      refine ⟨hone.trans (hgrows.congr htail rfl),
        ⟨hkeeps.names, ?_, fun id f h => hkeeps.funcs id f (hpush id f h)⟩,
        List.forall_mem_cons.mpr ⟨⟨funcInfo file (some owner) d, hkeeps.funcs _ _ ?_, rfl⟩, hids⟩⟩
      · exact hkeeps.structs.trans Array.size_modify
      · exact getElem?_push_iff.mpr (.inl ⟨rfl, rfl⟩)

theorem grows_addImpl {trait : TraitId} {owner : StructId} {methods : List FuncId} {span : Span}
    (howner : owner < c.package.structs.size)
    (hmethods : ∀ id ∈ methods, ∃ f, c.package.funcs[id]? = some f ∧ f.owner = some owner)
    (hspan : H → P span) : Grows P F H c (c.addImpl trait owner methods span) [] ∧
      Keeps c (c.addImpl trait owner methods span) := by
  unfold addImpl
  refine ⟨⟨fun hp => ?_, ?_, fun hH hp => ?_, fun _ => id⟩, rfl, Array.size_modify, fun _ _ => id⟩
  · obtain ⟨⟨owners, lists, members, impls⟩, names⟩ := hp
    refine ⟨⟨?_, ?_, fun s' hs' => ?_, ?_⟩, fun name m => ?_⟩
    · grind
    · grind
    · obtain ⟨i, hi⟩ := Array.mem_iff_getElem?.mp hs'
      obtain ⟨s0, hs0, rfl⟩ := getElem?_modify_iff.mp hi
      have := members s0 (Array.mem_of_getElem? hs0)
      grind
    · intro i hi
      rcases Array.mem_push.mp hi with hi | rfl
      · obtain ⟨⟨s, hs, ht⟩, hi⟩ := impls i hi
        exact ⟨⟨_, getElem?_modify_iff.mpr ⟨s, hs, rfl⟩, by grind⟩, hi⟩
      · have hs := Array.getElem?_eq_getElem howner
        exact ⟨⟨_, getElem?_modify_iff.mpr ⟨_, hs, rfl⟩, by grind⟩, hmethods⟩
    · refine (names name m).trans ?_
      cases m <;> grind [entryName?]
  · grind [size, taken]
  · exact { entered_modifyStruct hp owner _ fun s => by split <;> exact ⟨rfl, rfl, rfl⟩ with
      implSpans := forall_push hp.implSpans (hspan hH) }

theorem grows_unknown (c : Collected) {name : Ident} (hname : H → P name.span) :
    Grows P F H c (c.report (.unknownName name.name) name.span) [] ∧
      Keeps c (c.report (.unknownName name.name) name.span) := by
  refine ⟨⟨id, ?_, fun _ => id, fun hH hc => forall_push hc (hname hH)⟩, rfl, rfl, fun _ _ => id⟩
  simp only [report, taken, Array.toList_push, List.countP_append]
  rfl

end Collected

/-- The struct and the trait of a block are known. -/
def accepts (p : Package) (b : ImplBlock) : Bool :=
  (match p.lookup? b.target.name with
    | some (.struct _) => true
    | _ => false) &&
  b.traitName.all fun name =>
    match p.lookup? name.name with
    | some (.trait _) => true
    | _ => false

theorem accepts_congr {p q : Package} (h : q.names = p.names) : q.accepts = p.accepts := by
  unfold accepts lookup?
  rw [h]

end Package

/-- The names of what an item declares, methods of the blocks in `accepted` among them. -/
def Syntax.Item.declares (accepted : ImplBlock → Bool) : Item → List Ident
  | .function d => [d.name]
  | .struct d => [d.name]
  | .enum d => [d.name]
  | .trait d => [d.name]
  | .typeAlias d => [d.name]
  | .global d => [d.name]
  | .impl b => if accepted b then b.methods.map (·.name) else []

theorem Syntax.Program.mem_of_mem_kind {p : Program} {kind : Item → Option α} (make : α → Item)
    (h : ∀ i d, kind i = some d → i = make d) {d : α} (hd : d ∈ p.filterMap kind) : make d ∈ p := by
  obtain ⟨i, hi, he⟩ := List.mem_filterMap.mp hd
  exact h i d he ▸ hi

namespace Package

namespace Collected

variable {P : Span → Prop} {F : Nat → Prop} {c : Collected}

theorem grows_addBlock (file : Nat) (b : ImplBlock) (hc : c.package.Consistent) :
    Grows P F (b.Within P ∧ F file) c (c.addBlock file b)
        ((Item.impl b).declares c.package.accepts) ∧
      Keeps c (c.addBlock file b) := by
  have hrefused {name : Ident} (h : c.package.accepts b = false) (hname : b.Within P → P name.span) :
      Grows P F (b.Within P ∧ F file) c (c.report (.unknownName name.name) name.span)
        ((Item.impl b).declares c.package.accepts) ∧
        Keeps c (c.report (.unknownName name.name) name.span) := by
    rw [Item.declares, h]
    exact grows_unknown c fun h => hname h.1
  unfold addBlock
  split
  next owner htarget =>
    have howner := hc.lt_structs htarget
    obtain ⟨hgrows, hkeeps, hids⟩ := @grows_addMethods P F c file owner b.methods howner
    replace hgrows := Grows.congr (G := b.Within P ∧ F file) hgrows (And.imp_left (·.methods)) rfl
    split
    next hnone =>
      rw [Item.declares, if_pos (by simp [accepts, htarget, hnone])]
      exact ⟨hgrows, hkeeps⟩
    next name hname =>
      split
      next id htrait =>
        have himpl := @grows_addImpl P F (b.Within P ∧ F file) _ id owner _ b.span
          (hkeeps.structs ▸ howner) hids fun h => h.1.place
        have hboth := hgrows.trans himpl.1
        rw [List.append_nil] at hboth
        rw [Item.declares, if_pos (by simp [accepts, htarget, hname, htrait])]
        exact ⟨hboth, hkeeps.trans himpl.2⟩
      next hno =>
        refine hrefused ?_ fun h => h.traitName name hname
        rw [accepts, htarget, hname]
        simp
  next hno =>
    refine hrefused ?_ fun h => h.target
    rw [accepts]
    split
    · grind
    · rfl

/-! ## Files -/

theorem grows_addFile (file : Nat) (p : Program) (c : Collected) :
    Grows P F ((∀ i ∈ p, i.Within P) ∧ F file) c (c.addFile file p)
      (p.flatMap (Item.declares fun _ => false)) := by
  have step {α : Type} {add : Collected → α → Collected} {name : α → Ident} {kind : Item → Option α}
      {make : α → Item} (h : ∀ c d, Grows P F ((make d).Within P ∧ F file) c (add c d) [name d])
      (hmake : ∀ i d, kind i = some d → i = make d) (c : Collected) :
      Grows P F ((∀ i ∈ p, i.Within P) ∧ F file) c ((p.filterMap kind).foldl add c)
        ((p.filterMap kind).flatMap fun d => [name d]) :=
    (grows_foldl (I := fun _ => True) trivial fun c _ d hd => ⟨(h c d).congr
      (And.imp_left fun hp => hp _ (Program.mem_of_mem_kind make hmake hd)) rfl, trivial⟩).1
  refine Grows.congr ((((((step (grows_addStruct file) ?_ c).trans
    (step (grows_addTrait file) ?_ _)).trans (step (grows_addEnum file) ?_ _)).trans
    (step (grows_addFunc file) ?_ _)).trans (step (grows_addAlias file) ?_ _)).trans
    (step (grows_addGlobal file) ?_ _)) id ?_
  iterate 6 grind
  clear step
  induction p with
  | nil => rfl
  | cons i p ih => cases i <;> simp_all [Item.declares] <;> omega

/-- The names that the items of a program declare, by kind and together. -/
theorem length_declares (accepted : ImplBlock → Bool) (p : Program) :
    (p.flatMap (Item.declares fun _ => false)).length +
        (p.impls.flatMap fun b => (Item.impl b).declares accepted).length =
      (p.flatMap (Item.declares accepted)).length := by
  induction p with
  | nil => rfl
  | cons i p ih => cases i <;> simp_all [Program.impls, Item.declares] <;> omega

theorem length_declares_files (accepted : ImplBlock → Bool) (es : List (Program × Nat)) :
    ((es.flatMap fun e => e.1.flatMap (Item.declares fun _ => false)) ++
        es.flatMap fun e => e.1.impls.flatMap fun b => (Item.impl b).declares accepted).length =
      ((es.map (·.1)).flatMap (·.flatMap (Item.declares accepted))).length := by
  induction es with
  | nil => rfl
  | cons e es ih =>
    have := length_declares accepted e.1
    simp only [List.flatMap_cons, List.map_cons, List.length_append] at ih ⊢
    omega

end Collected

theorem consistent_empty : Package.empty.Consistent := by
  refine ⟨⟨?_, ?_, ?_, ?_⟩, fun name m => ?_⟩
  iterate 4 simp [Package.empty]
  cases m <;> simp [Package.empty, lookup?, entryName?]

variable {P : Span → Prop}

theorem collect_eq (files : List Program) : collect files = files.zipIdx.foldl
    (fun c e => e.1.impls.foldl (Collected.addBlock e.2) c)
    (files.zipIdx.foldl (fun c e => c.addFile e.2 e.1) {}) := by
  simp [collect, merge, List.zipIdx_map, List.foldl_map]

theorem grows_collect (files : List Program) :
    Collected.Grows P (· < files.length) (∀ p ∈ files, ∀ i ∈ p, i.Within P) {} (collect files)
      (files.flatMap (·.flatMap (Item.declares (collect files).package.accepts))) := by
  rw [collect_eq]
  let H : Prop := ∀ p ∈ files, ∀ i ∈ p, i.Within P
  let F (file : Nat) : Prop := file < files.length
  have hnumbered (h : H) {e : Program × Nat} (he : e ∈ files.zipIdx) :
      (∀ i ∈ e.1, i.Within P) ∧ F e.2 :=
    ⟨h e.1 (List.fst_mem_of_mem_zipIdx he), (List.mem_zipIdx' he).1⟩
  let c0 : Collected := files.zipIdx.foldl (fun c e => c.addFile e.2 e.1) {}
  obtain ⟨hfiles, -⟩ := Collected.grows_foldl (P := P) (F := F) (H := H) (I := fun _ => True)
    (c := {}) trivial fun c _ (e : Program × Nat) (he : e ∈ files.zipIdx) =>
      ⟨(Collected.grows_addFile e.2 e.1 c).congr (hnumbered · he) rfl, trivial⟩
  -- Blocks change neither names nor the places of structs, so each is accepted as in the end.
  let I (c : Collected) : Prop := c.package.Consistent ∧ Collected.Keeps c0 c
  have hblock : ∀ e ∈ files.zipIdx, ∀ c, I c → ∀ b ∈ e.1.impls, Collected.Grows P F H c
      (c.addBlock e.2 b) ((Item.impl b).declares c0.package.accepts) ∧ I (c.addBlock e.2 b) := by
    intro e he c hc b hb
    obtain ⟨hgrows, hkeeps⟩ := Collected.grows_addBlock (P := P) (F := F) e.2 b hc.1
    rw [accepts_congr hc.2.names] at hgrows
    refine ⟨hgrows.congr (fun h => ?_) rfl, hgrows.consistent hc.1, hc.2.trans hkeeps⟩
    obtain ⟨hitems, hfile⟩ := hnumbered h he
    have hi := hitems _ (Syntax.Program.mem_of_mem_kind .impl (by intro i b h; grind) hb)
    cases hi with | impl h => exact ⟨h, hfile⟩
  have hblocks : ∀ c, I c → ∀ e ∈ files.zipIdx, Collected.Grows P F H c _ _ ∧ I _ :=
    fun c hc e he => Collected.grows_foldl hc (hblock e he)
  obtain ⟨hgrows, hI⟩ := Collected.grows_foldl
    ⟨hfiles.consistent consistent_empty, rfl, rfl, fun _ _ => id⟩ hblocks
  have haccepts := accepts_congr hI.2.names
  refine (hfiles.trans hgrows).congr id ?_
  rw [Collected.length_declares_files, List.zipIdx_map_fst, haccepts]

/-- The table of files whose items lie within `P`, and what is reported of them. -/
theorem sound_collect {files : List Program} (h : ∀ p ∈ files, ∀ i ∈ p, i.Within P) :
    (collect files).Sound P (· < files.length) := by
  have hgrows := grows_collect (P := P) files
  have hempty : Package.empty.Entered P (· < files.length) := by
    constructor <;> simp [Package.empty]
  exact ⟨{ hgrows.consistent consistent_empty, hgrows.entered h hempty with },
    hgrows.reports h (by simp [Collected.Reports])⟩

/-- The table of all files is consistent, and each declaration is entered or its name is found
taken. So is each method of a block whose struct and trait are known; another block is refused
as a whole. -/
theorem collect_consistent (files : List Program) :
    let c := collect files
    c.package.Consistent ∧ c.package.size + c.taken =
      (files.flatMap (·.flatMap (Item.declares c.package.accepts))).length :=
  have hgrows := grows_collect (P := fun _ => True) files
  ⟨hgrows.consistent consistent_empty, hgrows.counted.trans (Nat.zero_add _)⟩

/-- A block of a struct that is not there. -/
def strayBlock : Program :=
  [.impl ⟨⟨"X", ⟨5, 6, 0⟩⟩, none, [⟨⟨"a", ⟨12, 13, 0⟩⟩, false, [], none, [], ⟨none, []⟩,
    ⟨[], false, ⟨16, 18, 0⟩⟩, ⟨9, 18, 0⟩⟩], ⟨0, 20, 0⟩⟩]

/-- Its method is not entered, and no name is found taken. -/
theorem strayBlock_dropped :
    let c := collect [strayBlock]
    c.package.size + c.taken ≠ ([strayBlock].flatMap (·.flatMap (Item.declares fun _ => true))).length := by
  decide

end Package

end JaneCheck
