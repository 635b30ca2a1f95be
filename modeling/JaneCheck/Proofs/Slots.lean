import JaneCheck.Proofs.Assignability
import JaneCheck.Proofs.Kinds
import Mathlib.Data.List.Forall2

/-!
# What slots accept

A slot of a struct type should take values of that struct only, and a slot of a
pointer type should take `nil` and values of that very type only. Both rules have
a gap. The trait rule does not ask on which side the trait stands, so a struct
slot takes a trait that the struct implements (`check_struct_iff`). And a tuple is
known by its category, which a pointer shares with what it leads to: a slot that
is a pointer to a tuple is compared by components, and takes any tuple that fits
them (`typeProblems_of_isTuple`).
-/

namespace JaneCheck

/-! ## Types without modifiers -/

namespace Ty

theorem plain_of_modifiers_nil {t : Ty} (h : t.modifiers = []) (hraw : t.category ≠ .raw) :
    t.isPointer = false ∧ t.isReference = false := by
  cases t with
  | pointer u =>
    unfold modifiers at h
    split at h
    next hpointer =>
      unfold isRawPointer at hpointer
      split at hpointer
      next hu => cases hu; exact absurd rfl hraw
      next => cases hpointer
    next => cases h
  | reference u => cases h
  | _ => exact ⟨rfl, rfl⟩

theorem plain_struct_cases {t : Ty} (h : t.isStruct = true) (hplain : t.modifiers = []) :
    t = .base .struct ∨ ∃ id name gs, t = .struct id name gs := by
  have hcat : t.category = .struct := eq_of_beq h
  obtain ⟨hpointer, hreference⟩ := plain_of_modifiers_nil hplain (by simp [hcat])
  cases t with
  | base c =>
    obtain rfl : c = .struct := hcat
    exact .inl rfl
  | struct id name gs => exact .inr ⟨id, name, gs, rfl⟩
  | pointer u => cases hpointer
  | reference u => cases hreference
  | _ => cases hcat

theorem plain_trait {t : Ty} {id : TraitId} (h : t.trait? = some id) (hplain : t.modifiers = []) :
    ∃ name, t = .trait id name := by
  obtain ⟨hpointer, hreference⟩ :=
    plain_of_modifiers_nil hplain (by simp [category_of_trait? h])
  cases t with
  | trait id name =>
    cases h
    exact ⟨name, rfl⟩
  | pointer u => cases hpointer
  | reference u => cases hreference
  | _ => cases h

/-- A type without the reference in front. -/
def referent (t : Ty) : Ty := if t.isReference then t.elem else t

/-- Types that are compared with others by their texts alone. -/
def goesByText (t : Ty) : Bool :=
  !t.isTrait && (t.isExplicitPointer || t.isReference || t.isSlice || t.isMap)

/-- A text that begins with a word is no pointer's, reference's, slice's or map's. -/
theorem kind_ne_of_isWord {t u : Ty} (ht : t.lead = none) (hword : isWord t.word.toList = true)
    (hu : u.goesByText = true) : t.kind ≠ u.kind := by
  intro hkind
  have hlead : ∃ c, u.lead = some c ∧ Text.opensName c = false := by
    cases u with
    | pointer => exact ⟨_, rfl, by decide⟩
    | reference => exact ⟨_, rfl, by decide⟩
    | slice | map => exact ⟨_, rfl, by decide⟩
    | _ =>
      simp [goesByText, isExplicitPointer, isReference, isSlice, isMap] at hu
  obtain ⟨c, hlead, hopens⟩ := hlead
  obtain ⟨cs, hcs⟩ := chars_of_lead_some hlead
  have hchars : t.word.toList ++ t.afterWord = c :: cs := by
    rw [← chars_of_lead_none ht, chars, hkind, ← hcs]
  cases hletters : t.word.toList with
  | nil => simp [hletters, isWord] at hword
  | cons d ds =>
    rw [hletters] at hchars hword
    obtain ⟨rfl, -⟩ := List.cons.inj hchars
    simp [isWord, hopens] at hword

end Ty

/-! ## Struct slots -/

namespace Compat

variable {k : Compat} {R G : Ty}

/-- One struct, with pairwise equal type arguments. -/
inductive SameStruct : Ty → Ty → Prop
  | intro {id name name' gs hs} (h : List.Forall₂ (fun a b => (a == b) = true) gs hs) :
    SameStruct (.struct id name gs) (.struct id name' hs)

/-- A struct implements a trait, no method of which takes its receiver by
reference. -/
inductive Implements (k : Compat) : Ty → Ty → Prop
  | intro {id name gs tr trait} (h : k.defs.implements id tr = true)
      (hvalue : k.defs.byReference tr = false) :
    Implements k (.struct id name gs) (.trait tr trait)

theorem beq_iff_forall2 (gs hs : List Ty) :
    (gs == hs) = true ↔ List.Forall₂ (fun a b => (a == b) = true) gs hs := by
  induction gs generalizing hs with
  | nil =>
    cases hs with
    | nil => exact ⟨fun _ => .nil, fun _ => rfl⟩
    | cons => exact ⟨nofun, nofun⟩
  | cons g gs ih =>
    cases hs with
    | nil => exact ⟨nofun, nofun⟩
    | cons h hs => simp [ih]

/-- The struct rule, for a struct that is neither a pointer nor a reference. -/
theorem structs_iff (hstruct : R.isStruct = true) (hplain : R.modifiers = [])
    (hpointer : G.isPointer = false) (hreference : G.isReference = false) :
    structs R G = true ↔ SameStruct R G := by
  rcases Ty.plain_struct_cases hstruct hplain with rfl | ⟨id, name, gs, rfl⟩
  · exact ⟨nofun, nofun⟩
  · cases G with
    | struct id' name' hs =>
      show (id == id' && ([] : List Modifier) == [] && gs == hs) = true ↔ _
      rw [Bool.and_eq_true, beq_iff_forall2]
      constructor
      · rintro ⟨hid, hargs⟩
        obtain rfl : id = id' := by simpa using hid
        exact .intro hargs
      · rintro ⟨hargs⟩
        exact ⟨by simp, hargs⟩
    | pointer => cases hpointer
    | reference => cases hreference
    | _ =>
      exact ⟨nofun, nofun⟩

/-- What the trait rule takes, `l` being the trait: `nil`, a struct that implements
it, perhaps by reference, and the same trait behind the same modifiers. -/
theorem traits_compatible_iff {l r : Ty} :
    k.traits l r = .compatible ↔ r.isNil = true ∨ ∃ tr, l.trait? = some tr ∧
      ((∃ id gs, r.referent.struct? = some (id, gs) ∧ l.modifiers = [] ∧
          r.referent.modifiers = [] ∧ k.defs.implements id tr = true ∧
          (k.defs.byReference tr = true → r.isReference = true)) ∨
        r.isReference = false ∧ r.trait? = some tr ∧ l.modifiers = r.modifiers) := by
  have hcategory : r.referent.category = r.category := category_looked_through r
  have hreferent : (if r.isReference then r.elem else r) = r.referent := rfl
  unfold traits
  simp only [hreferent]
  cases hnil : r.isNil with
  | true => simp
  | false =>
    cases htr : l.trait? with
    | none => simp
    | some tr =>
      cases hstruct : r.referent.isStruct with
      | true =>
        have hother : ∀ tr, r.trait? ≠ some tr := fun tr h => by
          simp [Ty.isStruct, hcategory, Ty.category_of_trait? h] at hstruct
        cases hid : r.referent.struct? with
        | none => simp [hother]
        | some found =>
          obtain ⟨id, gs⟩ := found
          by_cases hl : l.modifiers = [] <;> by_cases hr : r.referent.modifiers = [] <;>
            cases himplements : k.defs.implements id tr <;> cases hby : k.defs.byReference tr <;>
            cases href : r.isReference <;> simp [hother, hl, hr, himplements]
      | false =>
        have hother : ∀ id gs, r.referent.struct? ≠ some (id, gs) := fun id gs h => by
          simp [Ty.isStruct, Ty.category_of_struct? h] at hstruct
        cases href : r.isReference with
        | true => simp [hother]
        | false =>
          have hself : r.referent = r := by simp [Ty.referent, href]
          rw [hself] at hother hstruct ⊢
          cases htrait : r.isTrait with
          | true => simp [hother, ofBool_eq_compatible]
          | false =>
            have hnone : r.trait? ≠ some tr := fun h => by
              simp [Ty.isTrait, Ty.category_of_trait? h] at htrait
            simp [hother, hnone]

/-- The trait rule, for a struct that is neither a pointer nor a reference. -/
theorem traits_struct_iff (hstruct : R.isStruct = true) (hplain : R.modifiers = []) :
    k.traits G R = .compatible ↔ k.Implements R G := by
  rw [traits_compatible_iff]
  rcases Ty.plain_struct_cases hstruct hplain with rfl | ⟨id, name, gs, rfl⟩
  · constructor
    · rintro (hnil | ⟨tr, -, ⟨_, _, hid, -⟩ | ⟨-, htr, -⟩⟩)
      · cases hnil
      · cases hid
      · cases htr
    · nofun
  · constructor
    · rintro (hnil | ⟨tr, htr, ⟨_, _, hid, hG, -, himplements, hvalue⟩ | ⟨-, htr', -⟩⟩)
      · cases hnil
      · cases hid
        obtain ⟨trait, rfl⟩ := Ty.plain_trait htr hG
        refine .intro himplements ?_
        cases href : k.defs.byReference tr with
        | false => rfl
        | true => cases hvalue href
      · cases htr'
    · rintro ⟨himplements, hvalue⟩
      refine .inr ⟨_, rfl, .inl ⟨id, gs, rfl, rfl, rfl, himplements, ?_⟩⟩
      simp [hvalue]

/-- Before the rule for structs, those for pointers, slices and maps look at texts;
no other rule takes a plain struct. -/
theorem plain_struct (hstruct : R.isStruct = true) (hplain : R.modifiers = [])
    (hreference : G.isReference = false) :
    k.plain R G =
      if G.isPointer then !G.isRawPointer && G.kind == R.kind
      else if G.isSlice || G.isMap then G.kind == R.kind
      else structs R G := by
  have hcases := Ty.plain_struct_cases hstruct hplain
  cases G with
  | pointer u =>
    have hrule : k.plain R (.pointer u) = pointers (.pointer u) R := by
      rcases hcases with rfl | ⟨_, _, _, rfl⟩ <;> rfl
    have hnil : R.isNil = false := by rcases hcases with rfl | ⟨_, _, _, rfl⟩ <;> rfl
    have hpointer : R.isPointer = false := by rcases hcases with rfl | ⟨_, _, _, rfl⟩ <;> rfl
    rw [hrule, pointers, hnil, hpointer]
    cases (Ty.pointer u).isRawPointer <;> rfl
  | base c => rcases hcases with rfl | ⟨_, _, _, rfl⟩ <;> cases c <;> rfl
  | reference u => cases hreference
  | _ =>
    rcases hcases with rfl | ⟨_, _, _, rfl⟩ <;> rfl

theorem plain_struct_iff (hstruct : R.isStruct = true) (hplain : R.modifiers = [])
    (htrait : G.isTrait = false) (hreference : G.isReference = false) :
    k.plain R G = true ↔ SameStruct R G ∨ G.goesByText = true ∧ R.kind = G.kind := by
  rw [plain_struct hstruct hplain hreference, eq_comm (a := R.kind)]
  split
  next hpointer =>
    have hother : ¬SameStruct R G := by rintro ⟨⟩; cases hpointer
    have htext : G.goesByText = !G.isRawPointer := by
      cases G with
      | pointer u => simp [Ty.goesByText, htrait, Ty.isExplicitPointer, Ty.isReference, Ty.isSlice,
          Ty.isMap]
      | _ => cases hpointer
    simp [hother, htext]
  next hpointer =>
    replace hpointer : G.isPointer = false := by simpa using hpointer
    split
    next hcontainer =>
      have hother : ¬SameStruct R G := by rintro ⟨⟩; cases hcontainer
      have htext : G.goesByText = true := by
        simpa [Ty.goesByText, htrait, or_assoc] using .inr (.inr (by simpa using hcontainer))
      simp [hother, htext]
    next hcontainer =>
      have htext : G.goesByText = false := by
        cases G with
        | pointer => cases hpointer
        | _ => simp_all [Ty.goesByText, Ty.isExplicitPointer]
      rw [structs_iff hstruct hplain hpointer hreference]
      simp [htext]

/-- What a struct slot takes. -/
theorem check_struct_iff (hstruct : R.isStruct = true) (hplain : R.modifiers = []) :
    k.check R G = .compatible ↔
      SameStruct R G ∨ k.Implements R G ∨ G.goesByText = true ∧ R.kind = G.kind := by
  have hcat : R.category = .struct := eq_of_beq hstruct
  have hRtrait : R.isTrait = false := by simp [Ty.isTrait, hcat]
  have hRref : R.isReference = false := (Ty.plain_of_modifiers_nil hplain (by simp [hcat])).2
  cases htrait : G.isTrait with
  | true =>
    have hother : ¬SameStruct R G := by rintro ⟨⟩; cases htrait
    have htext : G.goesByText = false := by simp [Ty.goesByText, htrait]
    -- the trait is on the side of the value, and the rule looks at the slot as its struct
    rw [check_of_given_trait hRtrait htrait, traits_struct_iff hstruct hplain]
    simp [hother, htext]
  | false =>
    have himplements : ¬k.Implements R G := by rintro ⟨⟩; cases htrait
    cases hreference : G.isReference with
    | true =>
      have hother : ¬SameStruct R G := by rintro ⟨⟩; cases hreference
      have htext : G.goesByText = true := by simp [Ty.goesByText, htrait, hreference]
      rw [check_of_given_reference hRtrait htrait hRref hreference, ofBool_eq_compatible]
      simp [hother, himplements, htext]
    | false =>
      rw [check_of_plain hRtrait htrait hRref hreference, ofBool_eq_compatible,
        plain_struct_iff hstruct hplain htrait hreference]
      simp [himplements]

/-- A plain struct is taken for itself, for a trait that it implements by value, and
for what has its text and goes by it, which is nothing if its name is a word. -/
theorem struct_slot_accepts (k : Compat) {R : Ty} (hstruct : R.isStruct = true)
    (hplain : R.modifiers = []) (G : Ty) :
    (k.check R G = .compatible ↔
      SameStruct R G ∨ k.Implements R G ∨ G.goesByText = true ∧ R.kind = G.kind) ∧
    (isWord R.word.toList = true →
      (k.check R G = .compatible ↔ SameStruct R G ∨ k.Implements R G)) := by
  have hiff := k.check_struct_iff (G := G) hstruct hplain
  refine ⟨hiff, fun hword => ?_⟩
  have hlead : R.lead = none := by
    rcases Ty.plain_struct_cases hstruct hplain with rfl | ⟨_, _, _, rfl⟩ <;> rfl
  have htext : ¬(G.goesByText = true ∧ R.kind = G.kind) := fun ⟨hgoes, hkind⟩ =>
    Ty.kind_ne_of_isWord hlead hword hgoes hkind
  rw [hiff]
  simp [htext]

/-- Every struct implements every trait, and no method changes its receiver. -/
def valueShapes : Compat where
  defs := ⟨fun _ _ => true, fun _ => false, fun _ => .base .u32⟩
  wordSize := .w64
  ignoreAny := false
  allowAssign := true

/-- `Box[int]` takes itself and no reference to itself. -/
theorem struct_slot_accepts_box :
    valueShapes.check (.struct 0 "Box" [.base .int]) (.struct 0 "Box" [.base .int]) = .compatible ∧
    valueShapes.check (.struct 0 "Box" [.base .int]) (.reference (.struct 0 "Box" [.base .int])) ≠
      .compatible := by
  have hself := struct_slot_accepts valueShapes (R := .struct 0 "Box" [.base .int]) rfl rfl
    (.struct 0 "Box" [.base .int])
  have hreference := struct_slot_accepts valueShapes (R := .struct 0 "Box" [.base .int]) rfl rfl
    (.reference (.struct 0 "Box" [.base .int]))
  refine ⟨hself.1.mpr (.inl (.intro (.cons ?_ .nil))), fun h => ?_⟩
  · simp
  · rcases (hreference.2 (by decide)).mp h with h | h <;> cases h

/-- A slot of type `Point` takes any `Shape`. -/
theorem struct_slot_takes_trait :
    (Ty.struct 0 "Point" []).isStruct = true ∧ (Ty.struct 0 "Point" []).modifiers = [] ∧
      valueShapes.check (.struct 0 "Point" []) (.trait 0 "Shape") = .compatible ∧
      (Ty.trait 0 "Shape").isStruct = false :=
  ⟨rfl, rfl, rfl, rfl⟩

end Compat

/-! ## Pointer slots -/

namespace Ty

theorem eq_pointer {T : Ty} (h : T.isExplicitPointer = true) :
    ∃ u, T = .pointer u ∧ (Ty.pointer u).isRawPointer = false := by
  cases T with
  | pointer u => exact ⟨u, rfl, by simpa [isExplicitPointer] using h⟩
  | _ => cases h

/-- Traits of one name behind the same modifiers have one text. -/
theorem kind_eq_of_trait? {t u : Ty} {id : TraitId} (ht : t.trait? = some id)
    (hu : u.trait? = some id) (hmodifiers : t.modifiers = u.modifiers)
    (hname : ∀ id n m, t.core = .trait id n → u.core = .trait id m → n = m) :
    t.kind = u.kind := by
  have hmods : ∀ {x : Ty}, x.category = .trait → x.modifiers = x.leadingModifiers := by
    intro x hx
    have hraw : x.isRawPointer = false := by
      unfold isRawPointer
      split
      · cases hx
      · rfl
    simp [modifiers, hraw]
  obtain ⟨n, hn⟩ := core_of_trait? ht
  obtain ⟨m, hm⟩ := core_of_trait? hu
  have hcore : t.core.kind = u.core.kind := by rw [hn, hm, hname id n m hn hm]
  rw [← wrap_core t, ← wrap_core u, ← hmods (category_of_trait? ht),
    ← hmods (category_of_trait? hu), hmodifiers]
  exact kind_wrap_congr _ hcore

end Ty

namespace Compat

variable {k : Compat} {T G : Ty}

theorem modifiers_ne_nil (hT : T.isExplicitPointer = true) : T.modifiers ≠ [] := by
  obtain ⟨u, rfl, hraw⟩ := Ty.eq_pointer hT
  simp [Ty.modifiers, hraw, Ty.leadingModifiers]

theorem traits_modified (hT : T.modifiers ≠ []) (h : k.traits T G = .compatible) :
    G.isNil = true ∨
      ∃ id, T.trait? = some id ∧ G.trait? = some id ∧ T.modifiers = G.modifiers := by
  rcases traits_compatible_iff.mp h with hnil | ⟨id, htr, ⟨_, _, -, hplain, -⟩ | ⟨-, hsame⟩⟩
  · exact .inl hnil
  · exact absurd hplain hT
  · exact .inr ⟨id, htr, hsame⟩

/-- No trait takes a pointer to what is no trait, unless it leads to `nil`. -/
theorem traits_of_pointer (hT : T.isExplicitPointer = true) (htrait : T.isTrait = false)
    (h : k.traits G T = .compatible) : T.isNil = true := by
  have hreferent : T.referent = T := by
    obtain ⟨u, rfl, -⟩ := Ty.eq_pointer hT
    rfl
  rcases traits_compatible_iff.mp h with hnil | ⟨id, -, ⟨_, _, -, -, hplain, -⟩ | ⟨-, htr, -⟩⟩
  · exact hnil
  · rw [hreferent] at hplain
    exact absurd hplain (modifiers_ne_nil hT)
  · simp [Ty.isTrait, Ty.category_of_trait? htr] at htrait

/-- What a pointer slot takes apart from `nil`: the same text or, behind the same
modifiers, the same trait. A pointer to `nil` is taken for `nil` where a trait is
on the other side. -/
theorem check_pointer (hT : T.isExplicitPointer = true) (h : k.check T G = .compatible) :
    G.isNil = true ∨ T.kind = G.kind ∨ T.isNil = true ∧ G.isTrait = true ∨
      ∃ id, T.trait? = some id ∧ G.trait? = some id ∧ T.modifiers = G.modifiers := by
  cases htrait : T.isTrait with
  | true =>
    rw [check_of_trait htrait] at h
    rcases traits_modified (modifiers_ne_nil hT) h with hnil | hsame
    · exact .inl hnil
    · exact .inr (.inr (.inr hsame))
  | false =>
    cases hgiven : G.isTrait with
    | true =>
      rw [check_of_given_trait htrait hgiven] at h
      exact .inr (.inr (.inl ⟨traits_of_pointer hT htrait h, rfl⟩))
    | false =>
      obtain ⟨u, rfl, hraw⟩ := Ty.eq_pointer hT
      cases href : G.isReference with
      | true =>
        rw [check_of_given_reference htrait hgiven rfl href, ofBool_eq_compatible, beq_iff_eq] at h
        exact .inr (.inl h)
      | false =>
        rw [check_of_plain htrait hgiven rfl href, ofBool_eq_compatible] at h
        have hrule : pointers (.pointer u) G = true := h
        simp only [pointers, hraw, Bool.false_eq_true, if_false, Bool.or_eq_true, beq_iff_eq] at hrule
        rcases hrule with hnil | hkind
        · exact .inl hnil
        · exact .inr (.inl hkind)

end Compat

namespace Assign

variable {k : Assign} {t g : Ty}

theorem forall₂_typeProblems {ts gs : List Ty} (hlen : ts.length = gs.length) :
    (List.zipWith k.typeProblems ts gs).flatten = [] ↔
      List.Forall₂ (fun a b => k.typeProblems a b = []) ts gs := by
  induction ts generalizing gs with
  | nil =>
    cases gs with
    | nil => exact ⟨fun _ => .nil, fun _ => rfl⟩
    | cons => cases hlen
  | cons t ts ih =>
    cases gs with
    | nil => cases hlen
    | cons g gs => simp [ih (Nat.succ.inj hlen)]

/-- A tuple, or a pointer or reference to one, takes the tuples that fit it component
by component, whatever leads to them. -/
theorem typeProblems_of_isTuple (ht : t.isTuple = true) :
    k.typeProblems t g = [] ↔ g.isTuple = true ∧
      List.Forall₂ (fun a b => k.typeProblems a b = []) t.components g.components := by
  rw [typeProblems_eq]
  split
  next haligned =>
    rw [forall₂_typeProblems haligned.2.2]
    simp [haligned.2.1]
  next haligned =>
    have hfault : k.Fault t g := by simpa [Fault, ht] using not_welcomes_of_isTuple ht
    rw [if_pos hfault]
    constructor
    · intro h
      cases h
    · rintro ⟨hg, hall⟩
      exact absurd ⟨ht, hg, hall.length_eq⟩ haligned

theorem compatible_of_typeProblems (htuple : t.isTuple = false) (hany : t.isAny = false)
    (h : k.typeProblems t g = []) : k.compat.check t g = .compatible := by
  have hwelcome : ¬k.Welcomes t := by simp [Welcomes, hany]
  have haligned : ¬Ty.Aligned t g := fun hal => Bool.false_ne_true (htuple.symm.trans hal.1)
  have hfault : ¬k.Fault t g := by
    intro hfault
    simp [typeProblems_eq, haligned, hfault] at h
  unfold Fault at hfault
  split at hfault
  next => exact absurd hwelcome hfault
  next => exact ((Decidable.not_not.mp hfault).2.resolve_left hwelcome)

theorem check_of_constant_none {v : Value} (hv : v.constant = none)
    (h : k.check t v = []) : k.typeProblems t v.type = [] := by
  have hrange : inRange? k.wordSize t v = none := by simp [inRange?, hv]
  unfold check at h
  rw [hrange] at h
  split at h
  · cases h
  · exact h

/-- A value without a constant that a pointer slot takes is `nil` or has the text of
the slot, if the slot leads neither to a tuple nor to `nil` and a trait has one
name. A slot that leads to a tuple takes exactly the tuples whose components fit,
whether there is a pointer to them or not. -/
theorem pointer_slot_accepts (k : Assign) {T : Ty} {v : Value}
    (hT : T.isExplicitPointer = true) (hv : v.constant = none) :
    (T.isTuple = false → T.isNil = false →
      (∀ id n m, T.core = .trait id n → v.type.core = .trait id m → n = m) →
      k.check T v = [] → v.type.isNil = true ∨ v.type.kind = T.kind) ∧
    (T.isTuple = true →
      (k.check T v = [] ↔ v.type.isTuple = true ∧
        List.Forall₂ (fun a b => k.typeProblems a b = []) T.components v.type.components)) := by
  constructor
  · intro htuple hnil hname h
    have hany : T.isAny = false := by
      obtain ⟨u, rfl, -⟩ := Ty.eq_pointer hT
      rfl
    have hcheck := compatible_of_typeProblems htuple hany (check_of_constant_none hv h)
    rcases Compat.check_pointer hT hcheck with hgiven | hkind | ⟨htarget, -⟩ | ⟨id, ht, hg, hmods⟩
    · exact .inl hgiven
    · exact .inr hkind.symm
    · rw [hnil] at htarget
      cases htarget
    · exact .inr (Ty.kind_eq_of_trait? ht hg hmods hname).symm
  · intro htuple
    rw [← typeProblems_of_isTuple htuple]
    constructor
    · exact check_of_constant_none hv
    · intro h
      rw [check_of_isTuple ((typeProblems_of_isTuple htuple).mp h).1]
      exact h

/-- Assignment without definitions. -/
def bareRules : Assign where
  defs := ⟨fun _ _ => false, fun _ => false, fun _ => .base .u32⟩
  wordSize := .w64

/-- `*(int, str)` takes `**(i8, str)`, and what `*Shape` takes of its own type has its
text. -/
theorem pointer_slot_accepts_shape :
    bareRules.check (.pointer (.tuple [.base .int, .base .str]))
      (.ofType (.pointer (.pointer (.tuple [.base .i8, .base .str])))) = [] ∧
    bareRules.check (.pointer (.trait 0 "Shape")) (.ofType (.pointer (.trait 0 "Shape"))) = [] ∧
    ((Ty.pointer (.trait 0 "Shape")).isNil = true ∨
      (Ty.pointer (.trait 0 "Shape")).kind = (Ty.pointer (.trait 0 "Shape")).kind) := by
  have htuple := (pointer_slot_accepts bareRules (T := .pointer (.tuple [.base .int, .base .str]))
    (v := .ofType (.pointer (.pointer (.tuple [.base .i8, .base .str])))) rfl rfl).2 rfl
  have hshape : bareRules.check (.pointer (.trait 0 "Shape"))
    (.ofType (.pointer (.trait 0 "Shape"))) = [] := rfl
  refine ⟨htuple.mpr ⟨rfl, .cons rfl (.cons rfl .nil)⟩, hshape,
    (pointer_slot_accepts bareRules rfl rfl).1 rfl rfl ?_ hshape⟩
  rintro id n m ⟨⟩ ⟨⟩
  rfl

/-- `*(int, str)` takes `(int, str)`. -/
theorem pointer_slot_takes_tuple :
    (Ty.pointer (.tuple [.base .int, .base .str])).isExplicitPointer = true ∧
      bareRules.check (.pointer (.tuple [.base .int, .base .str]))
        (.ofType (.tuple [.base .int, .base .str])) = [] ∧
      (Ty.tuple [.base .int, .base .str]).isNil = false ∧
      (Ty.tuple [.base .int, .base .str]).kind ≠
        (Ty.pointer (.tuple [.base .int, .base .str])).kind :=
  ⟨rfl, rfl, rfl, by decide +kernel⟩

end Assign

end JaneCheck
