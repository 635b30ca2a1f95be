import JaneCheck.Proofs.Demand
import JaneCheck.Proofs.Inference
import JaneCheck.Proofs.Outcomes

/-!
# Types of results

Operators and inference make no instances of their own: the type of a result is
a base type, that of an operand, or a part of the type of an argument.
-/

namespace JaneCheck

namespace Demand

variable {D : Demand}

/-! ## Operators -/

theorem covers_solve {s : Setting} {l r : Value} {op : Syntax.BinOp}
    (hb : ∀ id, D.Covers (s.defs.enumBase id)) (hl : D.Covers l.type) (hr : D.Covers r.type) :
    D.Covers (Operator.solve s l op r).1.type :=
  (Operator.within_solve ⟨covers_base _, fun _ => covers_base _⟩ hl hr fun _ => hb).type

/-! ## Inference -/

section Inference

open Generic

theorem covered_inferredRecord {i : Inferred} {t : Ty} (name : String) (hi : Covered.By D i)
    (ht : D.Covers t) : Covered.By D (i.record name t) := by
  unfold Inferred.record
  split
  · exact List.forall_mem_append.mpr ⟨hi, List.forall_mem_singleton.mpr ht⟩
  · split <;> exact hi

theorem covers_strip (n : Nat) {t : Ty} (h : D.Covers t) : D.Covers (strip n t) := by
  induction n generalizing t with
  | zero => exact h
  | succ n ih => exact ih h.elem

theorem covered_inferAll {ts as : List Ty} {out : Inferred}
    (h : ∀ t ∈ ts, ∀ {a out}, D.Covers a → Covered.By D out → Covered.By D (infer t a out).2)
    (ha : ∀ a ∈ as, D.Covers a) (ho : Covered.By D out) : Covered.By D (inferAll ts as out).2 := by
  induction ts generalizing as out with
  | nil => simpa only [inferAll] using ho
  | cons t ts ih =>
    cases as with
    | nil => simpa only [inferAll] using ho
    | cons a as =>
      rw [List.forall_mem_cons] at h ha
      rw [inferAll_cons]
      exact ih h.2 ha.2 (h.1 ha.1 ho)

/-- What is bound to a type parameter is a part of the type of an argument. -/
theorem covered_infer {param arg : Ty} {out : Inferred} (ha : D.Covers arg)
    (ho : Covered.By D out) : Covered.By D (infer param arg out).2 := by
  induction param using Ty.inductionOnParts generalizing arg out with
  | step param ih =>
    have hwalk := walk_infer param arg out
    generalize infer param arg out = r at hwalk ⊢
    cases hwalk with
    | plain | refused => exact ho
    | recorded => exact covered_inferredRecord _ ho (covers_strip _ ha)
    | slice hP hA =>
      subst hP hA
      exact ih .element _ rfl (covers_slice.mp ha) ho
    | array hP hA =>
      subst hP hA
      exact ih .element _ rfl (covers_array.mp ha) ho
    | map hP hA =>
      subst hP hA
      obtain ⟨hk, hv⟩ := covers_map.mp ha
      exact ih .value _ rfl hv (ih .key _ rfl hk ho)
    | @function sig given hP hA =>
      obtain ⟨hparams, hret⟩ := ha.signature given (by rw [Ty.signature?, hA]; rfl)
      rw [inferParams_eq]
      refine ih .result sig.ret (by rw [Ty.part?, hP]; rfl) hret (covered_inferAll ?_ ?_ ho)
      · intro t ht
        obtain ⟨p, hp⟩ := Ty.part?_of_mem_params hP ht
        exact ih p t hp
      · simpa using hparams
    | @struct id name name' gs as hP hA =>
      refine covered_inferAll (fun t ht => ?_) (ha.struct (id, as) (by rw [Ty.struct?, hA]; rfl)) ho
      obtain ⟨p, hp⟩ := Ty.part?_of_mem_arguments hP ht
      exact ih p t hp

theorem covered_ordered {i : Inferred} (h : Covered.By D i) (names : List String) :
    ∀ types ∈ i.ordered? names, ∀ t ∈ types, D.Covers t := by
  have hget : ∀ name, ∀ t ∈ i.get? name, D.Covers t := by
    intro name t ht
    obtain ⟨b, hb, rfl⟩ := Option.map_eq_some_iff.mp ht
    exact h b (List.mem_of_find?_eq_some hb)
  unfold Inferred.ordered?
  induction names with
  | nil => rintro _ ⟨⟩ t ht; cases ht
  | cons name names ih =>
    intro types htypes
    rw [List.mapM_cons] at htypes
    obtain ⟨t, ts, ht, hts, rfl⟩ := Check.exists_of_both htypes
    exact List.forall_mem_cons.mpr ⟨hget name _ ht, ih ts hts⟩

end Inference

end Demand

end JaneCheck
