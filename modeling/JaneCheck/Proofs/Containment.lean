import JaneCheck.Generic.Bindings
import JaneCheck.Proofs.Silence
import JaneCheck.Proofs.StructOrder
import Mathlib.Logic.Relation

/-!
# Containment of struct types

A struct type stores the struct types of its fields, after its type arguments
have replaced its type parameters. The visit of structs looks at the fields as
they are declared. A field declared as an array of a type parameter shows no
struct there, so a struct that is stored through such a field is not seen:
`boxedNode_stores_itself`.
-/

namespace JaneCheck

open Relation (TransGen)

/-! ## Type arguments for type parameters -/

namespace Ty

mutual

/-- The type with the values of its type parameters. -/
def subst (b : Bindings) : Ty → Ty
  | .base c => .base c
  | .generic name => (b.lookup? name).getD (.generic name)
  | .pointer t => .pointer (t.subst b)
  | .reference t => .reference (t.subst b)
  | .slice t => .slice (t.subst b)
  | .array t size => .array (t.subst b) size
  | .map k v => .map (k.subst b) (v.subst b)
  | .tuple ts => .tuple (substAll b ts)
  | .function ⟨params, ret, isMethod, isGeneric, isUnsafe⟩ =>
    .function ⟨substParams b params, ret.subst b, isMethod, isGeneric, isUnsafe⟩
  | .struct id name generics => .struct id name (substAll b generics)
  | .trait id name => .trait id name
  | .enum id name => .enum id name

def substAll (b : Bindings) : List Ty → List Ty
  | [] => []
  | t :: ts => t.subst b :: substAll b ts

def substParams (b : Bindings) : List (Param Ty) → List (Param Ty)
  | [] => []
  | ⟨name, t, isMut, variadic, hasDefault⟩ :: ps =>
    ⟨name, t.subst b, isMut, variadic, hasDefault⟩ :: substParams b ps

end

/-- The struct that a value of the type stores, itself or in an array, with its
type arguments. -/
def stored? : Ty → Option (StructId × List Ty)
  | .array t _ => t.stored?
  | .struct id _ generics => some (id, generics)
  | _ => none

/-- The type is a type parameter, or an array of one. -/
def storesParameter : Ty → Bool
  | .array t _ => t.storesParameter
  | .generic _ => true
  | _ => false

/-- Type arguments do not change which struct a type stores, unless they
replace it. -/
theorem mem_contained_of_stored {b : Bindings} {t : Ty} {s : StructId × List Ty}
    (hparam : t.storesParameter = false) (h : (t.subst b).stored? = some s) :
    s.1 ∈ Package.contained t := by
  fun_induction Package.contained t with
  | case1 t size ih => exact ih hparam h
  | case2 id name generics =>
    rw [subst, stored?] at h
    cases h
    exact List.mem_singleton_self _
  | case3 t harray hstruct =>
    cases t with
    | generic => simp [storesParameter] at hparam
    | array t size => exact absurd rfl (harray t size)
    | struct id name generics => exact absurd rfl (hstruct id name generics)
    | _ => simp [subst, stored?] at h

end Ty

/-! ## Containment -/

namespace Package

variable {p : Package} {a b : StructId × List Ty}

/-- The field of the struct type `a` stores the struct type `b`. -/
def StoresIn (p : Package) (a : StructId × List Ty) (f : FieldInfo) (b : StructId × List Ty) :
    Prop :=
  f ∈ (p.struct a.1).fields ∧
    (f.type.subst (Bindings.pushAll {} (p.struct a.1).generics a.2)).stored? = some b

/-- The struct type `a` stores the struct type `b` in a field. -/
def Contains (p : Package) (a b : StructId × List Ty) : Prop := ∃ f, p.StoresIn a f b

/-- The struct type `a` stores the struct type `b` in a field that is not
declared as a type parameter or an array of one. -/
def ContainsOpenly (p : Package) (a b : StructId × List Ty) : Prop :=
  ∃ f, p.StoresIn a f b ∧ f.type.storesParameter = false

theorem ContainsOpenly.mem_fieldStructs (h : p.ContainsOpenly a b) :
    b.1 ∈ p.fieldStructs a.1 := by
  obtain ⟨f, ⟨hf, hstored⟩, hparam⟩ := h
  exact List.mem_flatMap.mpr ⟨f, hf, Ty.mem_contained_of_stored hparam hstored⟩

theorem ContainsOpenly.lt_size (h : p.ContainsOpenly a b) : a.1 < p.structs.size := by
  obtain ⟨f, ⟨hf, -⟩, -⟩ := h
  by_contra hnot
  rw [Package.struct, Array.getD_eq_getD_getElem?,
    Array.getElem?_eq_none_iff.mpr (Nat.le_of_not_lt hnot)] at hf
  cases hf

/-- Along a chain of containments the structs stand ever earlier. -/
theorem Ordered.idxOf_lt {order left : List StructId} (h : p.Ordered order left)
    (hb : b.1 < p.structs.size) (hchain : TransGen p.ContainsOpenly a b) :
    left.idxOf b.1 < left.idxOf a.1 := by
  have hstep : ∀ {a b}, p.ContainsOpenly a b → b.1 < p.structs.size →
      left.idxOf b.1 < left.idxOf a.1 := fun hab hb =>
    h.settled.idxOf_lt h.nodup ((h.mem _).mpr hab.lt_size) hab.mem_fieldStructs hb
  induction hchain using TransGen.head_induction_on with
  | single hab => exact hstep hab hb
  | @head a c hac hcb ih =>
    obtain ⟨_, hcd, -⟩ := TransGen.head'_iff.mp hcb
    exact Nat.lt_trans ih (hstep hac hcd.lt_size)

/-- `order` lists each non-generic struct of the package once, and none stores
itself or stands before one that it stores. -/
structure OrderedOpenly (p : Package) (order : List StructId) : Prop where
  nodup : order.Nodup
  mem (id : StructId) : id ∈ order ↔ id < p.structs.size ∧ (p.struct id).isGeneric = false
  acyclic : ∀ id ∈ order, ∀ types, ¬TransGen p.ContainsOpenly (id, []) (id, types)
  after : ∀ id ∈ order, ∀ e ∈ order, ∀ types, TransGen p.ContainsOpenly (id, []) (e, types) →
    [e, id].Sublist order

theorem Ordered.openly {order left : List StructId} (h : p.Ordered order left) :
    p.OrderedOpenly order := by
  have hmem : ∀ id, id ∈ order ↔ id < p.structs.size ∧ (p.struct id).isGeneric = false := by
    intro id
    rw [h.order, List.mem_filter, h.mem, Bool.not_eq_true']
  refine ⟨?_, hmem, fun id hid types hcycle => ?_, fun id hid e he types hchain => ?_⟩
  · rw [h.order]
    exact h.nodup.filter _
  · have hlt := h.idxOf_lt ((hmem id).mp hid).1 hcycle
    exact Nat.lt_irrefl _ hlt
  · exact h.sublist hid he (h.idxOf_lt ((hmem e).mp he).1 hchain)

end Package

/-! ## Reports -/

namespace Report

open Package

variable {setup : Setup} {files : Nat} {c : Collected} {p : Package} {order : List StructId}
  {out : Instances}

theorem forall_structs_resolveTypes {q : Package} {found : Findings} {P : StructInfo → Prop}
    (h : p.resolveTypes setup files = some (q, found))
    (hfields : ∀ s fields, P s → P { s with fields }) (hp : ∀ s ∈ p.structs, P s) :
    ∀ s ∈ q.structs, P s := by
  obtain ⟨rs, -, he⟩ := Option.bind_eq_some_iff.mp h
  cases he
  rw [(foldl_enterTypes rs p).1]
  exact forall_mem_foldl_modify hp fun fields s hs => hfields s fields hs

theorem order_of_checkCollected (h : checkCollected setup files c = some (p, order, out)) :
    order = p.orderStructs.1 := by
  obtain ⟨⟨p1, aliases⟩, -, h⟩ := Option.bind_eq_some_iff.mp h
  obtain ⟨⟨p2, enums⟩, -, h⟩ := Option.bind_eq_some_iff.mp h
  obtain ⟨⟨p3, types⟩, -, h⟩ := Option.bind_eq_some_iff.mp h
  obtain ⟨⟨p4, globals⟩, -, h⟩ := Option.bind_eq_some_iff.mp h
  obtain ⟨bodies, -, h⟩ := Option.bind_eq_some_iff.mp h
  obtain ⟨out', -, h⟩ := Option.bind_eq_some_iff.mp h
  cases h
  rfl

namespace Stages

theorem diags_orderStructs (S : Stages setup files c p out) {d : Diagnostic} (h : d ∈ p.orderStructs.2) :
    d ∈ out.findings.diags.toList := by
  refine S.diags_found ?_
  rw [← S.found_eq]
  simp_all [Findings.ofDiags]

theorem structNames (S : Stages setup files c p out)
    (hc : c.package.Declared (·.file < files) (· < files)) :
    ∀ s ∈ p.structs, s.decl.name.span.file < files := by
  have haliased := (sameItems_resolveAliases S.resolveAliases).structs
  have henumerated := (same_resolveEnums S.resolveEnums).1.structs
  have hfinal := (same_computeGlobals S.computeGlobals).1.structs
  rw [hfinal]
  refine forall_structs_resolveTypes S.resolveTypes (fun _ _ hs => hs) ?_
  rw [henumerated, haliased]
  exact hc.structNames

theorem orderStructs_quiet (S : Stages setup files c p out)
    (hc : c.package.Declared (·.file < files) (· < files))
    (hclean : ∀ d ∈ out.findings.diags.toList, d.span.file < files → d.isError = false) :
    p.orderStructs.2 = [] := by
  refine List.eq_nil_iff_forall_not_mem.mpr fun d hd => ?_
  have herror := hclean d (S.diags_orderStructs hd)
  obtain ⟨id, hid, rfl⟩ := cycles_orderStructs hd
  have hspan : (p.struct id).decl.name.span.file < files :=
    S.structNames hc _ (by simp [Package.struct, hid])
  cases herror hspan

end Stages

/-- In a report without errors no struct stores itself, and each comes after
those that it stores, along every chain of containments whose fields are not
declared as type parameters or arrays of them. -/
theorem containment_ordered {options : Options} {sources : List Source} {r : Report}
    (h : check options sources = some r) (hclean : r.hasErrors = false) :
    ∃ (p : Package) (order : List StructId) (out : Instances),
      checkCollected (setupOf options sources) sources.length
        (collect ((parseAll sources).map programOf)) = some (p, order, out) ∧
      r.structOrder = order.map (fun id => (p.struct id).name) ∧ p.OrderedOpenly order := by
  obtain ⟨p, order, out, hmade⟩ := exists_table_of_check h
  have hcheck := hmade.1
  obtain ⟨S⟩ := exists_stages hcheck
  obtain ⟨left, hordered⟩ :=
    ordered_orderStructs (S.orderStructs_quiet (sound_parseAll _).table fun d hd _ =>
      hmade.quiet hclean d hd)
  refine ⟨p, order, out, hcheck, ?_, order_of_checkCollected hcheck ▸ hordered.openly⟩
  obtain ⟨⟨p', order', out'⟩, hcheck', he⟩ := Option.bind_eq_some_iff.mp h
  rw [merge_parsed] at hcheck'
  cases hcheck.symm.trans hcheck'
  cases he
  rfl

/-- A tree stores leaves in a generic pair and points to itself through it. -/
def treeOfPairs : Source where
  path := "main.jn"
  text := "struct Tree { pair: Pair[Tree], last: [2]Leaf }\n" ++
    "struct Pair[T] { first: [3][2]Leaf, rest: *T }\nstruct Leaf { n: int }"

set_option maxRecDepth 100000 in
theorem containment_ordered_treeOfPairs :
    ∃ r, check {} [treeOfPairs] = some r ∧ r.hasErrors = false ∧
      ∃ (p : Package) (order : List StructId) (out : Instances),
        checkCollected (setupOf {} [treeOfPairs]) 1
          (collect ((parseAll [treeOfPairs]).map programOf)) = some (p, order, out) ∧
        r.structOrder = order.map (fun id => (p.struct id).name) ∧ p.OrderedOpenly order := by
  have heval : (check {} [treeOfPairs]).any (!·.hasErrors) = true := by decide +kernel
  obtain ⟨r, hr, hclean⟩ := (Option.any_eq_true _ _).mp heval
  rw [Bool.not_eq_true'] at hclean
  exact ⟨r, hr, hclean, containment_ordered hr hclean⟩

/-- A node stores a box that stores the node. -/
def boxedNode : Source where
  path := "main.jn"
  text := "struct Box[T] { v: T }\nstruct Node { b: Box[Node] }"

/-- The second struct has a field of the first one over itself, which has a
field of its type parameter. -/
def boxesItself (p : Package) : Bool :=
  match (p.struct 0).fields, (p.struct 0).generics, (p.struct 1).fields, (p.struct 1).generics with
  | [⟨_, .generic a, _⟩], [b], [⟨_, .struct 0 _ [.struct 1 _ []], _⟩], [] => a == b
  | _, _, _, _ => false

theorem contains_of_boxesItself (h : boxesItself p = true) :
    (p.struct 1).isGeneric = false ∧ TransGen p.Contains (1, []) (1, []) := by
  unfold boxesItself at h
  split at h
  next _ a _ b _ _ name _ hvalue hgenerics hbox hnone =>
    rw [beq_iff_eq] at h
    subst h
    have hnode : p.Contains (1, []) (0, [.struct 1 name []]) :=
      ⟨_, hbox ▸ List.mem_singleton_self _, rfl⟩
    have hboxed : p.Contains (0, [.struct 1 name []]) (1, []) := by
      refine ⟨_, hvalue ▸ List.mem_singleton_self _, ?_⟩
      simp [hgenerics, Ty.subst, Ty.stored?, Bindings.pushAll, Bindings.pushFrame,
        Bindings.lookup?]
    exact ⟨by simp [StructInfo.isGeneric, hnone], .head hnode (.single hboxed)⟩
  next => cases h

set_option maxRecDepth 100000 in
theorem boxedNode_stores_itself :
    ∃ r p order out, check {} [boxedNode] = some r ∧ r.hasErrors = false ∧
      checkCollected (setupOf {} [boxedNode]) 1
        (collect ((parseAll [boxedNode]).map programOf)) = some (p, order, out) ∧
      (p.struct 1).isGeneric = false ∧ TransGen p.Contains (1, []) (1, []) := by
  have heval : (check {} [boxedNode]).any (!·.hasErrors) = true := by decide +kernel
  have htable : (checkCollected (setupOf {} [boxedNode]) 1
      (collect ((parseAll [boxedNode]).map programOf))).any (boxesItself ·.1) = true := by
    decide +kernel
  obtain ⟨r, hr, hclean⟩ := (Option.any_eq_true _ _).mp heval
  obtain ⟨⟨p, order, out⟩, hcheck, hboxes⟩ := (Option.any_eq_true _ _).mp htable
  exact ⟨r, p, order, out, hr, by simpa using hclean, hcheck, contains_of_boxesItself hboxes⟩

end Report

end JaneCheck
