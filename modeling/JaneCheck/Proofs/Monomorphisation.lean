import JaneCheck.Proofs.Stages

/-!
# Monomorphisation is closed

The instances in a report need no others: where the instantiation limit is not
reached, each instance that a reported type mentions is itself on record. What
is asked for during the whole check is the demand that covers all types, and
the queue serves it to the end.
-/

namespace JaneCheck.Report

theorem mem_combinationsOf {p : Package} {l : Ledger} {id : StructId} {types : List Ty}
    (hid : id < p.structs.size) (h : l.contains (.struct id) types = true) :
    ∃ list, ((p.struct id).name, list) ∈ combinationsOf p l ∧
      Combinations.contains ⟨list⟩ types = true := by
  refine ⟨(l.combinations (.struct id)).list, ?_, h⟩
  have hne : (l.combinations (.struct id)).list ≠ [] := by
    intro he
    simp [Ledger.contains, Combinations.contains, he] at h
  refine List.mem_mergeSort.mpr (List.mem_filter.mpr ⟨?_, by simpa using hne⟩)
  refine List.mem_map.mpr ⟨.struct id, ?_, rfl⟩
  simp [templates, hid]

/-! ## Closure -/

/-- The type is that of a reported typing, or of a field of a reported instance. -/
inductive Mentions (r : Report) : Ty → Prop
  | typing {f : FileReport} {t : Typing} (hf : f ∈ r.files) (ht : t ∈ f.typings) :
      Mentions r t.type
  | field {i : StructInstance} {f : String × Ty} (hi : i ∈ r.instances) (hf : f ∈ i.fields) :
      Mentions r f.2

/-- Where the instantiation limit is not reached, each instance that is
mentioned anywhere in a report is one of the combinations of its struct. -/
theorem combinations_closed {options : Options} {sources : List Source} {r : Report}
    (h : check options sources = some r)
    (hlimit : ∀ f ∈ r.files, ∀ d ∈ f.diags, ∀ name, d.problem ≠ .instantiationLimit name)
    {t : Ty} (ht : r.Mentions t) {id : StructId} {name : String} {gs : List Ty}
    (ho : (Ty.struct id name gs).Occurs t) (hne : gs ≠ []) (hg : gs.any Ty.hasGeneric = false) :
    ∃ list, (name, list) ∈ r.combinations ∧ Combinations.contains ⟨list⟩ gs = true := by
  obtain ⟨setup, p, order, out, hcheck, hcombinations, hinstances, htypings, hdiags⟩ :=
    exists_of_check h
  obtain ⟨S⟩ := exists_stages hcheck
  let D := Demand.ofStages S
  have hcovered : D.CoveredStages S :=
    Demand.covered_stages (sound_parseAll sources) S
  -- the type is covered, so the instance was asked for
  have hcovers : D.Covers t := by
    cases ht with
    | typing hf ht =>
      obtain ⟨file, hfile⟩ := htypings _ hf
      exact (hcovered.instances.typings _ (mem_of_mem_typingsOf (hfile ▸ ht))).1
    | field hi hf => exact hcovered.instances.layouts _ (hinstances ▸ hi) _ hf
  obtain ⟨hname, hasked⟩ := hcovers id name gs ho trivial
  obtain ⟨harity, span, hasked⟩ := (hasked.resolve_left hne).resolve_left (by simp [hg])
  -- what was asked for was served: a refusal would be reported
  have hserved : out.ledger.contains (.struct id) gs = true := by
    have hqueued : ⟨.struct id, gs, span⟩ ∈ S.requests := hasked
    refine (S.drains.settles (by simpa [Stages.requests, Package.Instances.atDepth,
      Function.comp_def] using hqueued)).resolve_right fun hrefuse => ?_
    obtain ⟨f, hf, hfdiags⟩ := hdiags _ (hcovered.events _ hrefuse).place
    refine hlimit f hf ⟨.instantiationLimit (p.templateName (.struct id)), span⟩ ?_ _ rfl
    rw [hfdiags]
    refine mem_diagsOf (d := ⟨_, span⟩) ?_
    rw [S.drains.diags]
    exact List.mem_append_right _
      (List.mem_flatMap.mpr ⟨_, hrefuse, by simp [Package.Instances.Event.diags]⟩)
  -- a struct with type parameters is in the table
  have hid : id < p.structs.size := by
    refine Nat.lt_of_not_le fun hle => ?_
    have hdefault : p.struct id = default := by
      rw [Package.struct, Array.getD_eq_getD_getElem?, Array.getElem?_eq_none hle]
      rfl
    rw [← (hcovered.final.structs id).arity, hdefault] at harity
    exact hne (List.length_eq_zero_iff.mp harity)
  rw [hname, ← (hcovered.final.structs id).name, hcombinations]
  exact mem_combinationsOf hid hserved

/-- The instance `Box[int]` is named nowhere; it stands in a field of `Stack[int]`. -/
def stackOfBoxes : Source where
  path := "main.jn"
  text := "struct Box[T] { v: T }\nstruct Stack[T] { items: []Box[T] }\nfn f(x: Stack[int]) { }"

/-- The type of `items` in `Stack[int]`. -/
def isItems : Ty → Bool
  | .slice (.struct 0 "Box" [.base .int]) => true
  | _ => false

set_option maxRecDepth 100000 in
theorem combinations_closed_stack :
    ∃ r, check {} [stackOfBoxes] = some r ∧
      (∀ f ∈ r.files, ∀ d ∈ f.diags, ∀ name, d.problem ≠ .instantiationLimit name) ∧
      r.Mentions (.slice (.struct 0 "Box" [.base .int])) ∧
      ∃ list, ("Box", list) ∈ r.combinations ∧
        Combinations.contains ⟨list⟩ [.base .int] = true := by
  have heval : (check {} [stackOfBoxes]).any (fun r => r.files.all (·.diags.isEmpty) &&
      r.instances.any (·.fields.any (isItems ·.2))) = true := by decide +kernel
  cases hr : check {} [stackOfBoxes] with
  | none =>
    rw [hr] at heval
    cases heval
  | some r =>
    rw [hr] at heval
    simp only [Option.any_some, Bool.and_eq_true, List.all_eq_true, List.any_eq_true,
      List.isEmpty_iff] at heval
    obtain ⟨hdiags, i, hi, f, hf, htype⟩ := heval
    have hlimit : ∀ f ∈ r.files, ∀ d ∈ f.diags, ∀ name, d.problem ≠ .instantiationLimit name :=
      fun f hf d hd => by rw [hdiags f hf] at hd; cases hd
    have hmentions : r.Mentions (.slice (.struct 0 "Box" [.base .int])) := by
      unfold isItems at htype
      split at htype
      next heq => exact heq ▸ .field hi hf
      next => cases htype
    have hoccurs : (Ty.struct 0 "Box" [.base .int]).Occurs (.slice (.struct 0 "Box" [.base .int])) :=
      .part List.mem_cons_self .self
    exact ⟨r, rfl, hlimit, hmentions,
      combinations_closed hr hlimit hmentions hoccurs (by simp) (by decide)⟩

end JaneCheck.Report
