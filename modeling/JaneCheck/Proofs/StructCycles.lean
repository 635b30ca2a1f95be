import JaneCheck.Proofs.StructOrder
import Mathlib.Logic.Relation

/-!
# The visit of structs finds the cycles

A struct that is met while it is active closes a cycle, since each active struct
leads to the one that is visited. So what is reported lies on a cycle. Conversely
nothing can be left after all that it stores if it stores itself, so a cycle does
not go unreported. Whether or not there is one, every struct is left in the end.
-/

namespace JaneCheck.Package

open Relation (TransGen)

variable {p : Package}

/-- A field of the first struct stores the second one. -/
def Stores (p : Package) (a b : StructId) : Prop := b ∈ p.fieldStructs a

/-- The report of a cycle that is closed at the struct. -/
def cycleAt (p : Package) (id : StructId) : Diagnostic :=
  ⟨.cycle (p.struct id).name, (p.struct id).decl.name.span⟩

theorem Stores.lt_size {a b : StructId} (h : p.Stores a b) : a < p.structs.size := by
  refine Nat.lt_of_not_le fun hle => ?_
  have hnone : p.struct a = default := by simp [Package.struct, hle]
  rw [Stores, fieldStructs, hnone] at h
  cases h

theorem Ordered.idxOf_lt_of_reached {order left : List StructId} (h : p.Ordered order left)
    (hp : ∀ {a b}, p.Stores a b → b < p.structs.size) {a b : StructId}
    (hab : TransGen p.Stores a b) : left.idxOf b < left.idxOf a := by
  have hstep : ∀ {a b}, p.Stores a b → left.idxOf b < left.idxOf a := fun {a b} hab =>
    h.settled.idxOf_lt h.nodup ((h.mem a).mpr hab.lt_size) hab (hp hab)
  induction hab with
  | single hab => exact hstep hab
  | tail _ hbc ih => exact Nat.lt_trans (hstep hbc) ih

namespace Visit

variable {v v' : Visit} {id a : StructId} {n : Nat} {left left' : List StructId}

/-! ## What is reported -/

/-- All that `v'` reports beyond `v` is a cycle through the struct it names. -/
def FindsCycles (p : Package) (v v' : Visit) : Prop :=
  ∀ d ∈ v'.diags, d ∈ v.diags ∨ ∃ id, d = p.cycleAt id ∧ TransGen p.Stores id id

/-- Every active struct leads to the given one. -/
def LeadsTo (p : Package) (v : Visit) (id : StructId) : Prop :=
  ∀ a, v.marks[a]? = some .active → TransGen p.Stores a id

theorem FindsCycles.trans {v'' : Visit} (h : FindsCycles p v v') (h' : FindsCycles p v' v'') :
    FindsCycles p v v'' := by
  intro d hd
  rcases h' d hd with hd | hcycle
  · exact h d hd
  · exact .inr hcycle

/-- Once a struct is entered, all active structs lead to what it stores. -/
theorem LeadsTo.enter {e : StructId} (h : LeadsTo p v id) (hnew : v.marks[id]? = some .new)
    (he : p.Stores id e) : LeadsTo p (v.setMark id .active) e := by
  intro a ha
  rw [mark_setMark (lt_of_mark hnew)] at ha
  by_cases hid : id = a
  · exact .single (hid ▸ he)
  · rw [if_neg hid] at ha
    exact .tail (h a ha) he

theorem findsCycles_foldl {visit : Visit → StructId → Visit} {bound : Nat}
    (hpass : ∀ {v left} id, Records p v left → v.fresh < bound →
      Leaves p v left [id] (visit v id))
    (hvisit : ∀ {v left id}, Records p v left → v.fresh < bound → LeadsTo p v id →
      FindsCycles p v (visit v id))
    {ids : List StructId} (h : Records p v left) (hfresh : v.fresh < bound)
    (hlead : ∀ id ∈ ids, LeadsTo p v id) : FindsCycles p v (ids.foldl visit v) := by
  induction ids generalizing v left with
  | nil => exact fun d hd => .inl hd
  | cons id ids ih =>
    obtain ⟨left1, h1, hstep, -⟩ := hpass id h hfresh
    -- the structs that are active stay the same
    have hlead1 : ∀ e ∈ ids, LeadsTo p (visit v id) e := fun e he a ha =>
      hlead e (List.mem_cons_of_mem _ he) a ((hstep.active a).mp ha)
    exact (hvisit h hfresh (hlead id List.mem_cons_self)).trans
      (ih h1 (Nat.lt_of_le_of_lt hstep.fresh hfresh) hlead1)

theorem findsCycles_visit (h : Records p v left) (hfresh : v.fresh < n) (hlead : LeadsTo p v id) :
    FindsCycles p v (visit p n v id) := by
  induction n generalizing v left id with
  | zero => omega
  | succ n ih =>
    unfold visit
    split
    next hnew =>
      have hlt : (v.setMark id .active).fresh < n := by
        have := fresh_enter hnew
        omega
      have hinner := findsCycles_foldl leaves_visit ih (records_enter h hnew) hlt
        fun e he => hlead.enter hnew he
      intro d hd
      rw [diags_finish] at hd
      exact hinner d hd
    next hactive =>
      intro d hd
      rcases List.mem_append.mp hd with hd | hd
      · exact .inl hd
      · exact .inr ⟨id, List.mem_singleton.mp hd, hlead id hactive⟩
    next => exact fun d hd => .inl hd

/-! ## What is left -/

/-- A visit came to the struct, which exists. -/
def Met (v : Visit) (id : StructId) : Prop :=
  v.marks[id]? = some .active ∨ v.marks[id]? = some .done

theorem Met.advance (h : Met v a) (hv : Records p v left) (hv' : Records p v' left')
    (hstep : Advances v left v' left') : Met v' a := by
  rcases h with hactive | hdone
  · exact .inl ((hstep.active a).mpr hactive)
  · exact .inr ((hv'.done a).mpr (hstep.left a ((hv.done a).mp hdone)))

theorem met_visit (h : Records p v left) (hid : id < p.structs.size) (hfresh : v.fresh < n) :
    Met (visit p n v id) id := by
  cases n with
  | zero => omega
  | succ n =>
    unfold visit
    split
    next hnew =>
      have hlt : (v.setMark id .active).fresh < n := by
        have := fresh_enter hnew
        omega
      obtain ⟨left', h', hinner, -⟩ :=
        leaves_foldl leaves_visit (p.fieldStructs id) (records_enter h hnew) hlt
      have hactive := (hinner.active id).mpr (by rw [mark_setMark (lt_of_mark hnew), if_pos rfl])
      refine .inr ?_
      rw [marks_finish, mark_setMark (lt_of_mark hactive), if_pos rfl]
    next hactive => exact .inl hactive
    next hnew hactive =>
      have hlt : id < v.marks.size := h.size ▸ hid
      have hmark := Array.getElem?_eq_getElem hlt
      cases hm : v.marks[id] with
      | new => exact absurd (hm ▸ hmark) hnew
      | active => exact absurd (hm ▸ hmark) hactive
      | done => exact .inr (hm ▸ hmark)

theorem met_foldl {ids : List StructId} (h : Records p v left) (hfresh : v.fresh < n)
    (hids : ∀ id ∈ ids, id < p.structs.size) : ∀ id ∈ ids, Met (ids.foldl (visit p n) v) id := by
  induction ids generalizing v left with
  | nil => exact fun _ hid => nomatch hid
  | cons id ids ih =>
    rw [List.forall_mem_cons] at hids
    obtain ⟨left1, h1, hstep, -⟩ := leaves_visit id h hfresh
    have hfresh1 := Nat.lt_of_le_of_lt hstep.fresh hfresh
    obtain ⟨left2, h2, hrest, -⟩ := leaves_foldl leaves_visit ids h1 hfresh1
    rw [List.forall_mem_cons]
    exact ⟨(met_visit h hids.1 hfresh).advance h1 h2 hrest, ih h1 hfresh1 hids.2⟩

end Visit

/-! ## All structs -/

theorem fresh_start :
    ({ marks := Array.replicate p.structs.size .new } : Visit).fresh < p.structs.size + 1 :=
  Nat.lt_succ_of_le (Nat.le_trans Array.countP_le_size (Nat.le_of_eq Array.size_replicate))

theorem not_active_start (a : StructId) :
    ({ marks := Array.replicate p.structs.size .new } : Visit).marks[a]? ≠ some .active := by
  simp [Array.getElem?_replicate]

theorem cycle_of_mem_orderStructs {d : Diagnostic} (h : d ∈ p.orderStructs.2) :
    ∃ id, d = p.cycleAt id ∧ TransGen p.Stores id id := by
  have hall : Visit.FindsCycles p _ p.visitAll :=
    Visit.findsCycles_foldl Visit.leaves_visit Visit.findsCycles_visit records_start fresh_start
      fun _ _ a ha => absurd ha (not_active_start a)
  exact (hall d h).resolve_left List.not_mem_nil

/-- Every struct that is not generic is listed once, whether or not there are cycles. -/
theorem orderStructs_lists :
    p.orderStructs.1.Nodup ∧
      ∀ id, id ∈ p.orderStructs.1 ↔ id < p.structs.size ∧ (p.struct id).isGeneric = false := by
  obtain ⟨left, hleft, hrun, -⟩ := leaves_visitAll p
  have hmem : ∀ id, id ∈ left ↔ id < p.structs.size := by
    intro id
    refine ⟨fun hid => hleft.size ▸ Visit.lt_of_mark ((hleft.done id).mpr hid), fun hid => ?_⟩
    have hmet := Visit.met_foldl records_start fresh_start
      (fun id hid => List.mem_range.mp hid) id (List.mem_range.mpr hid)
    rcases hmet with hactive | hdone
    · exact absurd ((hrun.active id).mp hactive) (not_active_start id)
    · exact (hleft.done id).mp hdone
  rw [orderStructs_eq, hleft.order]
  refine ⟨hleft.nodup.filter _, fun id => ?_⟩
  rw [List.mem_filter, hmem, Bool.not_eq_true']

/-- The order of the structs is that of a depth-first visit: each struct that is not
generic is listed once and no other is. Without a cycle nothing is reported, and a
struct stands behind all it reaches, be it through generic ones. Cycles are reported if
there are any, each at a struct on it. -/
theorem orderStructs_visits_depth_first
    (hp : ∀ id < p.structs.size, ∀ e ∈ p.fieldStructs id, e < p.structs.size) :
    (p.orderStructs.1.Nodup ∧
      ∀ id, id ∈ p.orderStructs.1 ↔ id < p.structs.size ∧ (p.struct id).isGeneric = false) ∧
    ((∀ id, ¬ TransGen p.Stores id id) → p.orderStructs.2 = [] ∧
      ∀ id ∈ p.orderStructs.1, ∀ e, TransGen p.Stores id e → (p.struct e).isGeneric = false →
        [e, id].Sublist p.orderStructs.1) ∧
    ((∃ id, TransGen p.Stores id id) → p.orderStructs.2 ≠ []) ∧
    ∀ d ∈ p.orderStructs.2, ∃ id, d = p.cycleAt id ∧ TransGen p.Stores id id := by
  have hexist : ∀ {a b}, p.Stores a b → b < p.structs.size := fun hab =>
    hp _ hab.lt_size _ hab
  refine ⟨orderStructs_lists, fun hacyclic => ?_, ?_, fun d => cycle_of_mem_orderStructs⟩
  · have hquiet : p.orderStructs.2 = [] := by
      refine List.eq_nil_iff_forall_not_mem.mpr fun d hd => ?_
      obtain ⟨id, -, hid⟩ := cycle_of_mem_orderStructs hd
      exact hacyclic id hid
    refine ⟨hquiet, fun id hid e hreach hgeneric => ?_⟩
    obtain ⟨left, hordered⟩ := ordered_orderStructs hquiet
    obtain ⟨b, -, hbe⟩ := TransGen.tail'_iff.mp hreach
    have he : e ∈ p.orderStructs.1 := (orderStructs_lists.2 e).mpr ⟨hexist hbe, hgeneric⟩
    exact hordered.sublist hid he (hordered.idxOf_lt_of_reached hexist hreach)
  · rintro ⟨id, hid⟩ hquiet
    obtain ⟨left, hordered⟩ := ordered_orderStructs hquiet
    exact Nat.lt_irrefl _ (hordered.idxOf_lt_of_reached hexist hid)

/-- An entry for a struct with the given type parameters and fields. -/
def structEntry (name : String) (generics : List String) (fields : List Ty) : StructInfo where
  name := name
  file := 0
  decl := ⟨⟨name, default⟩, [], [], default⟩
  generics := generics
  fields := fields.map fun t => ⟨"", t, false⟩

/-- A tree stores its nodes in an array and each node stores the tree; the root reaches
a leaf through a generic box. -/
def grove : Package where
  structs := #[
    structEntry "Root" [] [.struct 1 "Box" [.base .int], .pointer (.struct 0 "Root" [])],
    structEntry "Box" ["T"] [.generic "T", .array (.struct 2 "Leaf" []) (some 2)],
    structEntry "Leaf" [] [.base .int],
    structEntry "Tree" [] [.array (.struct 4 "Node" []) (some 3), .struct 2 "Leaf" []],
    structEntry "Node" [] [.struct 3 "Tree" []]]

theorem orderStructs_visits_depth_first_grove :
    (∀ id < grove.structs.size, ∀ e ∈ grove.fieldStructs id, e < grove.structs.size) ∧
      grove.orderStructs.1 = [2, 0, 4, 3] ∧
      (∃ id, TransGen grove.Stores id id) ∧ grove.orderStructs.2 ≠ [] := by
  have hp : ∀ id < grove.structs.size, ∀ e ∈ grove.fieldStructs id, e < grove.structs.size := by
    decide
  have hcycle : TransGen grove.Stores 3 3 :=
    .tail (.single (show 4 ∈ grove.fieldStructs 3 by decide))
      (show 3 ∈ grove.fieldStructs 4 by decide)
  exact ⟨hp, by decide, ⟨3, hcycle⟩, (orderStructs_visits_depth_first hp).2.2.1 ⟨3, hcycle⟩⟩

end JaneCheck.Package
