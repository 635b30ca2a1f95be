import JaneCheck.Package.Order

/-!
# The order of structs is that of containment

The visit of structs keeps a list of those it has left, `left`, generic ones
included; the order lists the others of it. As long as no cycle is reported, a
struct is left after all that its fields store.
-/

namespace JaneCheck.Package

variable {p : Package} {e id : StructId} {left : List StructId}

/-- A list of structs, each after all that its fields store. -/
inductive Settled (p : Package) : List StructId → Prop where
  | nil : Settled p []
  | snoc {left : List StructId} {id : StructId} (h : Settled p left)
      (hfields : ∀ e ∈ p.fieldStructs id, e < p.structs.size → e ∈ left) :
      Settled p (left ++ [id])

/-- A struct stands behind those that its fields store. -/
theorem Settled.idxOf_lt (h : Settled p left) (hnodup : left.Nodup) (hid : id ∈ left)
    (he : e ∈ p.fieldStructs id) (hsize : e < p.structs.size) : left.idxOf e < left.idxOf id := by
  induction h with
  | nil => cases hid
  | @snoc left last h hfields ih =>
    obtain ⟨hleft, -, hlast⟩ := List.nodup_append.mp hnodup
    rcases List.mem_append.mp hid with hid | hid
    · have hlt := ih hleft hid
      have he : e ∈ left :=
        List.idxOf_lt_length_iff.mp (Nat.lt_trans hlt (List.idxOf_lt_length_iff.mpr hid))
      rwa [List.idxOf_append, List.idxOf_append, if_pos he, if_pos hid]
    · cases List.mem_singleton.mp hid
      have hmem := hfields e he hsize
      have hnot : id ∉ left := fun hid => hlast id hid id (by simp) rfl
      rw [List.idxOf_append, List.idxOf_append, if_pos hmem, if_neg hnot]
      exact Nat.lt_of_lt_of_le (List.idxOf_lt_length_iff.mpr hmem) (Nat.le_add_left ..)

namespace Visit

variable {v v' v'' : Visit} {id a : StructId} {m : Mark} {n : Nat}
  {left left' left'' : List StructId}

/-! ## Marks -/

/-- The structs that no visit has come to. -/
def fresh (v : Visit) : Nat := v.marks.countP (· == .new)

theorem mark_setMark (h : id < v.marks.size) (a : StructId) :
    (v.setMark id m).marks[a]? = if id = a then some m else v.marks[a]? := by
  simp [setMark, Array.getElem?_setIfInBounds, h]

@[simp] theorem size_setMark : (v.setMark id m).marks.size = v.marks.size := by simp [setMark]

theorem fresh_setMark (h : id < v.marks.size) :
    (v.setMark id m).fresh =
      (v.fresh - if v.marks[id] == .new then 1 else 0) + if m == .new then 1 else 0 := by
  simp only [fresh, setMark, Array.set!_eq_setIfInBounds, Array.setIfInBounds, h, ↓reduceDIte]
  exact Array.countP_set h

theorem fresh_pos (h : v.marks[id]? = some .new) : 0 < v.fresh :=
  Array.countP_pos_iff.mpr ⟨.new, Array.mem_of_getElem? h, rfl⟩

/-! ## One visit -/

/-- `left` are the structs that the visit has left. -/
structure Records (p : Package) (v : Visit) (left : List StructId) : Prop where
  size : v.marks.size = p.structs.size
  cycles : ∀ d ∈ v.diags, ∃ id < p.structs.size,
    d = ⟨.cycle (p.struct id).name, (p.struct id).decl.name.span⟩
  done (id : StructId) : v.marks[id]? = some .done ↔ id ∈ left
  order : v.order = left.filter fun id => !(p.struct id).isGeneric
  nodup : left.Nodup
  settled : v.diags = [] → p.Settled left

/-- Between the two states some structs were visited and left. -/
structure Advances (v : Visit) (left : List StructId) (v' : Visit) (left' : List StructId) :
    Prop where
  left (id : StructId) : id ∈ left → id ∈ left'
  diags : v'.diags = [] → v.diags = []
  active (a : StructId) : v'.marks[a]? = some .active ↔ v.marks[a]? = some .active
  fresh : v'.fresh ≤ v.fresh

theorem Advances.refl : Advances v left v left := ⟨fun _ => id, id, fun _ => .rfl, Nat.le_refl _⟩

theorem Advances.trans (h : Advances v left v' left') (h' : Advances v' left' v'' left'') :
    Advances v left v'' left'' where
  left id hid := h'.left id (h.left id hid)
  diags hquiet := h.diags (h'.diags hquiet)
  active a := (h'.active a).trans (h.active a)
  fresh := Nat.le_trans h'.fresh h.fresh

/-- After the visit of a struct it is left, unless a cycle was reported. -/
def Leaves (p : Package) (v : Visit) (left : List StructId) (ids : List StructId) (v' : Visit) :
    Prop :=
  ∃ left', Records p v' left' ∧ Advances v left v' left' ∧
    (v'.diags = [] → ∀ id ∈ ids, id < p.structs.size → id ∈ left')

theorem leaves_foldl {visit : Visit → StructId → Visit} {bound : Nat}
    (hvisit : ∀ {v left} id, Records p v left → v.fresh < bound →
      Leaves p v left [id] (visit v id))
    (ids : List StructId) (h : Records p v left) (hfresh : v.fresh < bound) :
    Leaves p v left ids (ids.foldl visit v) := by
  induction ids generalizing v left with
  | nil => exact ⟨left, h, .refl, fun _ _ hid => nomatch hid⟩
  | cons id ids ih =>
    obtain ⟨left1, h1, hstep, hid⟩ := hvisit id h hfresh
    obtain ⟨left2, h2, hrest, hids⟩ := ih h1 (Nat.lt_of_le_of_lt hstep.fresh hfresh)
    refine ⟨left2, h2, hstep.trans hrest, fun hquiet e he hsize => ?_⟩
    rcases List.mem_cons.mp he with rfl | he
    · exact hrest.left e (hid (hrest.diags hquiet) e (by simp) hsize)
    · exact hids hquiet e he hsize

theorem lt_of_mark (hm : v.marks[id]? = some m) : id < v.marks.size :=
  (Array.getElem?_eq_some_iff.mp hm).1

theorem records_enter (h : Records p v left) (hnew : v.marks[id]? = some .new) :
    Records p (v.setMark id .active) left where
  size := by rw [size_setMark, h.size]
  cycles := h.cycles
  done a := by
    rw [mark_setMark (lt_of_mark hnew), ← h.done]
    split
    next he => simp [← he, hnew]
    next => rfl
  order := h.order
  nodup := h.nodup
  settled := h.settled

theorem fresh_enter (hnew : v.marks[id]? = some .new) :
    (v.setMark id .active).fresh + 1 = v.fresh := by
  have hlt := lt_of_mark hnew
  have hmark : v.marks[id] = .new := by simpa [Array.getElem?_eq_getElem hlt] using hnew
  have hpos := fresh_pos hnew
  rw [fresh_setMark hlt, hmark]
  simp only [beq_self_eq_true, ↓reduceIte, reduceCtorEq, beq_iff_eq, Nat.add_zero]
  omega

@[simp] theorem marks_finish : (v.finish p id).marks = (v.setMark id .done).marks := by
  unfold finish
  split <;> rfl

@[simp] theorem diags_finish : (v.finish p id).diags = v.diags := by
  unfold finish
  split <;> rfl

/-- An active struct is left once all that its fields store is. -/
theorem records_finish (h : Records p v left) (hactive : v.marks[id]? = some .active)
    (hfields : v.diags = [] → ∀ e ∈ p.fieldStructs id, e < p.structs.size → e ∈ left) :
    Records p (v.finish p id) (left ++ [id]) where
  size := by rw [marks_finish, size_setMark, h.size]
  cycles := by
    rw [diags_finish]
    exact h.cycles
  done a := by
    rw [marks_finish, mark_setMark (lt_of_mark hactive), List.mem_append, ← h.done,
      List.mem_singleton]
    split
    next he => simp [he]
    next he => simp [Ne.symm he]
  order := by
    unfold finish
    split
    next hg => simp [setMark, h.order, hg]
    next hg => simp [setMark, h.order, hg]
  nodup := by
    have hnot : id ∉ left := fun hid => nomatch hactive.symm.trans ((h.done id).mpr hid)
    exact List.nodup_append.mpr ⟨h.nodup, by simp, fun a ha b hb hab => by simp_all⟩
  settled hquiet := by
    rw [diags_finish] at hquiet
    exact .snoc (h.settled hquiet) (hfields hquiet)

theorem records_closeCycle (h : Records p v left) (hactive : v.marks[id]? = some .active) :
    Records p (v.closeCycle p id) left where
  size := h.size
  cycles d hd := by
    rcases List.mem_append.mp hd with hd | hd
    · exact h.cycles d hd
    · exact ⟨id, h.size ▸ lt_of_mark hactive, List.mem_singleton.mp hd⟩
  done := h.done
  order := h.order
  nodup := h.nodup
  settled hquiet := absurd hquiet (by simp [closeCycle])

/-- Between entering and leaving a struct all others advance. -/
theorem advances_around (hnew : v.marks[id]? = some .new)
    (hinner : Advances (v.setMark id .active) left v' left')
    (hactive : v'.marks[id]? = some .active) :
    Advances v left (v'.finish p id) (left' ++ [id]) where
  left a ha := List.mem_append_left _ (hinner.left a ha)
  diags hquiet := hinner.diags (diags_finish (p := p) ▸ hquiet)
  active a := by
    rw [marks_finish, mark_setMark (lt_of_mark hactive)]
    split
    next he => simp [← he, hnew]
    next he => rw [hinner.active, mark_setMark (lt_of_mark hnew), if_neg he]
  fresh := by
    have hlt := lt_of_mark hactive
    have henter := fresh_enter hnew
    have hinner := hinner.fresh
    have hleave : (v'.finish p id).fresh = (v'.setMark id .done).fresh := by
      rw [Visit.fresh, marks_finish, Visit.fresh]
    rw [hleave, fresh_setMark hlt]
    simp only [reduceCtorEq, beq_iff_eq, ↓reduceIte, Nat.add_zero]
    omega

theorem leaves_visit (id : StructId) (h : Records p v left) (hfresh : v.fresh < n) :
    Leaves p v left [id] (visit p n v id) := by
  induction n generalizing v left id with
  | zero => omega
  | succ n ih =>
    unfold visit
    split
    next hnew =>
      have hlt : (v.setMark id .active).fresh < n := by
        have := fresh_enter hnew
        omega
      obtain ⟨left', h', hinner, hfields⟩ :=
        leaves_foldl ih (p.fieldStructs id) (records_enter h hnew) hlt
      have hactive := (hinner.active id).mpr (by rw [mark_setMark (lt_of_mark hnew), if_pos rfl])
      refine ⟨left' ++ [id], records_finish h' hactive hfields,
        advances_around hnew hinner hactive, fun _ e he _ => ?_⟩
      exact List.mem_append_right _ he
    next hactive =>
      have hcycle : (v.closeCycle p id).diags ≠ [] := by simp [closeCycle]
      exact ⟨left, records_closeCycle h hactive,
        ⟨fun _ ha => ha, fun hquiet => absurd hquiet hcycle, fun _ => .rfl, Nat.le_refl _⟩,
        fun hquiet => absurd hquiet hcycle⟩
    next hnew hactive =>
      refine ⟨left, h, .refl, fun _ e he hsize => ?_⟩
      cases List.mem_singleton.mp he
      have hlt : id < v.marks.size := h.size ▸ hsize
      have hmark := Array.getElem?_eq_getElem hlt
      rw [← h.done, hmark]
      cases hm : v.marks[id] with
      | new => exact absurd (hm ▸ hmark) hnew
      | active => exact absurd (hm ▸ hmark) hactive
      | done => rfl

end Visit

/-! ## All structs -/

/-- What the order of the structs is when no cycle is reported. -/
structure Ordered (p : Package) (order : List StructId) (left : List StructId) : Prop where
  order : order = left.filter fun id => !(p.struct id).isGeneric
  mem (id : StructId) : id ∈ left ↔ id < p.structs.size
  nodup : left.Nodup
  settled : p.Settled left

theorem records_start : Visit.Records p { marks := Array.replicate p.structs.size .new } [] where
  size := by simp
  cycles := by simp
  done id := by simp [Array.getElem?_replicate]
  order := rfl
  nodup := List.nodup_nil
  settled _ := .nil

/-- The visit of all structs. -/
def visitAll (p : Package) : Visit :=
  (List.range p.structs.size).foldl (Visit.visit p (p.structs.size + 1))
    { marks := Array.replicate p.structs.size .new }

theorem orderStructs_eq : p.orderStructs = (p.visitAll.order, p.visitAll.diags) := rfl

theorem leaves_visitAll (p : Package) :
    Visit.Leaves p { marks := Array.replicate p.structs.size .new } []
      (List.range p.structs.size) p.visitAll := by
  refine Visit.leaves_foldl Visit.leaves_visit _ records_start ?_
  exact Nat.lt_succ_of_le (Nat.le_trans Array.countP_le_size (Nat.le_of_eq Array.size_replicate))

theorem cycles_orderStructs {d : Diagnostic} (h : d ∈ p.orderStructs.2) :
    ∃ id < p.structs.size, d = ⟨.cycle (p.struct id).name, (p.struct id).decl.name.span⟩ :=
  have ⟨_, hleft, _⟩ := leaves_visitAll p
  hleft.cycles d h

theorem ordered_orderStructs (h : p.orderStructs.2 = []) :
    ∃ left, p.Ordered p.orderStructs.1 left := by
  obtain ⟨left, hleft, -, hall⟩ := leaves_visitAll p
  refine ⟨left, hleft.order, fun id => ⟨fun hid => ?_, fun hid => ?_⟩, hleft.nodup,
    hleft.settled h⟩
  · exact hleft.size ▸ Visit.lt_of_mark ((hleft.done id).mpr hid)
  · exact hall h id (List.mem_range.mpr hid) hid

theorem sublist_of_idxOf_lt (hid : id ∈ left) (hlt : left.idxOf e < left.idxOf id) :
    [e, id].Sublist left := by
  induction left with
  | nil => cases hid
  | cons a left ih =>
    have hne : a ≠ id := by
      rintro rfl
      simp at hlt
    have hid := (List.mem_cons.mp hid).resolve_left hne.symm
    by_cases he : a = e
    · exact he ▸ (List.singleton_sublist.mpr hid).cons_cons a
    · refine (ih hid ?_).cons a
      rw [List.idxOf_cons, List.idxOf_cons, beq_eq_false_iff_ne.mpr he,
        beq_eq_false_iff_ne.mpr hne] at hlt
      exact Nat.lt_of_succ_lt_succ hlt

/-- What stands earlier among the structs that are left stands earlier in the order. -/
theorem Ordered.sublist {order : List StructId} (h : p.Ordered order left) (hid : id ∈ order)
    (he : e ∈ order) (hlt : left.idxOf e < left.idxOf id) : [e, id].Sublist order := by
  have hboth : [e, id].filter (fun id => !(p.struct id).isGeneric) = [e, id] := by
    rw [h.order, List.mem_filter] at hid he
    simp_all
  rw [h.order] at hid ⊢
  rw [← hboth]
  exact (sublist_of_idxOf_lt (List.mem_filter.mp hid).1 hlt).filter _

end JaneCheck.Package
