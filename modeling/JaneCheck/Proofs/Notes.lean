import JaneCheck.Package.Phases
import JaneCheck.Proofs.Levels.Ranks
import JaneCheck.Proofs.References

/-!
# What is found

Aliases and globals are found depth first, and what is found of one is remembered
while others are still open. `Notes.Truthful` is the invariant: what is remembered is
true, and a failure is never remembered without an alarm. What is met again while it
is open lies on a cycle, so it stands for nothing, and neither does anything that was
opened since.
-/

namespace JaneCheck.Check

open Relation (TransGen)

/-- What is remembered of the declarations of one kind, and what they stand for. -/
structure Notes (α β : Type) where
  cache : State → List (Nat × β)
  cyclic : State → List Nat
  /-- What is written down of an answer. -/
  noted : Option α → β
  /-- The reports that explain a failure. -/
  Alarm : Diagnostic → Prop
  Stands : Nat → α → Prop
  /-- Some declaration refers to itself through others. -/
  Knotted : Prop

theorem lookup_cons_cases {entries : List (Nat × α)} {i j : Nat} {a b : α}
    (h : ((i, a) :: entries).lookup j = some b) : j = i ∧ b = a ∨ entries.lookup j = some b := by
  rw [List.lookup_cons] at h
  by_cases hid : j = i
  · simp only [hid, beq_self_eq_true, Option.some.injEq] at h
    exact .inl ⟨hid, h.symm⟩
  · rw [beq_false_of_ne hid] at h
    exact .inr h

theorem State.added_of_append {s s' : State} {ds : List Diagnostic}
    (h : s'.diags.toList = s.diags.toList ++ ds) : s.added s' = ds := by
  rw [added, h, ← Array.length_toList, List.drop_left]

namespace Notes

/-- A failure was explained on the way. -/
def Alarmed (M : Notes α β) (s0 s : State) : Prop := ∃ d ∈ s0.added s, M.Alarm d

/-- The answer is the one that satisfies `D`; a failure is explained. -/
structure Settles (M : Notes α β) (s0 : State) (D : γ → Prop) (r : Option γ) (s : State) :
    Prop where
  answer : ∀ a, r = some a ↔ D a
  alarmed : r = none → M.Alarmed s0 s

/-- What was found since `s0` is right. -/
structure Truthful (M : Notes α β) (s0 s : State) : Prop where
  le : s0.Le s
  answers : ∀ {id b}, (M.cache s).lookup id = some b →
    ∃ r, M.noted r = b ∧ M.Settles s0 (M.Stands id) r s
  cyclic : ∀ id ∈ M.cyclic s, M.Settles s0 (M.Stands id) none s
  cycles : ∀ d ∈ s0.added s, ∀ name, d.problem = .cycle name → M.Knotted

structure Settled (M : Notes α β) (s0 : State) (D : γ → Prop) (r : Option γ) (s : State) : Prop
    extends Settles M s0 D r s where
  truthful : M.Truthful s0 s

/-- An answer was written down. -/
def Gave (M : Notes α β) (s0 : State) (D : α → Prop) (b : β) (s : State) : Prop :=
  ∃ r, M.noted r = b ∧ M.Settled s0 D r s

variable {M : Notes α β} {s0 s s' : State} {D : γ → Prop} {r : Option γ} {id : Nat}

theorem Alarmed.mono (h : M.Alarmed s0 s) (hle : s.Le s') : M.Alarmed s0 s' := by
  obtain ⟨d, hd, halarm⟩ := h
  exact ⟨d, State.mem_added_left hle hd, halarm⟩

theorem Settles.mono (h : M.Settles s0 D r s) (hle : s.Le s') : M.Settles s0 D r s' :=
  ⟨h.answer, fun hr => (h.alarmed hr).mono hle⟩

theorem settles_none (hD : ∀ a, ¬ D a) (halarmed : M.Alarmed s0 s) : M.Settles s0 D none s :=
  ⟨fun a => ⟨nofun, fun h => absurd h (hD a)⟩, fun _ => halarmed⟩

theorem Truthful.answered {a : γ} (hs : M.Truthful s0 s) (hD : ∀ b, D b ↔ b = a) :
    M.Settled s0 D (some a) s where
  truthful := hs
  answer b := by
    rw [hD, Option.some.injEq]
    exact eq_comm
  alarmed h := by cases h

theorem Truthful.failed (hs : M.Truthful s0 s) (hD : ∀ a, ¬ D a) (halarmed : M.Alarmed s0 s) :
    M.Settled s0 D none s := ⟨settles_none hD halarmed, hs⟩

theorem Settled.map {E : δ → Prop} {f : γ → δ} (h : M.Settled s0 D r s)
    (hE : ∀ b, E b ↔ ∃ a, D a ∧ f a = b) : M.Settled s0 E (r.map f) s where
  truthful := h.truthful
  answer b := by
    simp only [hE, ← h.answer, Option.map_eq_some_iff]
  alarmed hnone := h.alarmed (Option.map_eq_none_iff.mp hnone)

theorem Settled.both {D' : δ → Prop} {r' : Option δ} {f : γ → δ → ε} {E : ε → Prop}
    (h : M.Settled s0 D r s) (h' : M.Settled s0 D' r' s') (hle : s.Le s')
    (hE : ∀ c, E c ↔ ∃ a b, D a ∧ D' b ∧ f a b = c) :
    M.Settled s0 E (do return f (← r) (← r')) s' where
  truthful := h'.truthful
  answer c := by
    rw [hE]
    simp only [← h.answer, ← h'.answer]
    cases r <;> cases r' <;> simp
  alarmed hnone := by
    rcases none_of_both hnone with hnone | hnone
    · exact (h.alarmed hnone).mono hle
    · exact h'.alarmed hnone

/-! ## Steps -/

theorem truthful_start (hcache : M.cache s = []) (hcyclic : M.cyclic s = []) :
    M.Truthful s s where
  le := .refl s
  answers h := by simp [hcache] at h
  cyclic id h := by simp [hcyclic] at h
  cycles d hd := by simp [State.added_of_append (List.append_nil _).symm] at hd

/-- All that is new is right. -/
theorem Truthful.step (h : M.Truthful s0 s) (hle : s.Le s')
    (hcache : ∀ {id b}, (M.cache s').lookup id = some b → (M.cache s).lookup id = some b ∨
      ∃ r, M.noted r = b ∧ M.Settles s0 (M.Stands id) r s')
    (hcyclic : ∀ id ∈ M.cyclic s', id ∈ M.cyclic s ∨ M.Settles s0 (M.Stands id) none s')
    (hcycles : ∀ d ∈ s.added s', ∀ name, d.problem = .cycle name → M.Knotted) :
    M.Truthful s0 s' where
  le := h.le.trans hle
  answers hb := by
    rcases hcache hb with hb | hb
    · obtain ⟨r, hr, hsettles⟩ := h.answers hb
      exact ⟨r, hr, hsettles.mono hle⟩
    · exact hb
  cyclic id hid := (hcyclic id hid).elim (fun hid => (h.cyclic id hid).mono hle) (·)
  cycles d hd name hname := by
    rw [State.added_trans h.le hle] at hd
    exact (List.mem_append.mp hd).elim (h.cycles d · name hname) (hcycles d · name hname)

/-- Nothing of this kind was found on the way. -/
structure Onward (M : Notes α β) (s s' : State) : Prop where
  le : s.Le s'
  cache : M.cache s' = M.cache s
  cyclic : M.cyclic s' = M.cyclic s
  quiet : ∀ d ∈ s.added s', ∀ name, d.problem ≠ .cycle name

theorem Onward.of_append {ds : List Diagnostic} (hle : s.Le s') (hcache : M.cache s' = M.cache s)
    (hcyclic : M.cyclic s' = M.cyclic s) (hds : ∀ d ∈ ds, ∀ name, d.problem ≠ .cycle name)
    (hdiags : s'.diags.toList = s.diags.toList ++ ds) : M.Onward s s' :=
  ⟨hle, hcache, hcyclic, State.added_of_append hdiags ▸ hds⟩

theorem Onward.refl (M : Notes α β) (s : State) : M.Onward s s :=
  .of_append (.refl s) rfl rfl (List.forall_mem_nil _) (List.append_nil _).symm

theorem Truthful.onward (h : M.Truthful s0 s) (hs : M.Onward s s') : M.Truthful s0 s' :=
  h.step hs.le (fun hb => .inl (hs.cache ▸ hb)) (fun _ hid => .inl (hs.cyclic ▸ hid))
    fun d hd name hname => absurd hname (hs.quiet d hd name)

theorem Settled.onward (h : M.Settled s0 D r s) (hs : M.Onward s s') : M.Settled s0 D r s' :=
  ⟨h.toSettles.mono hs.le, h.truthful.onward hs⟩

theorem Gave.onward {D : α → Prop} {b : β} (h : M.Gave s0 D b s) (hs : M.Onward s s') :
    M.Gave s0 D b s' := by
  obtain ⟨r, hr, hsettled⟩ := h
  exact ⟨r, hr, hsettled.onward hs⟩

/-- A cycle is reported, and all on it stand for nothing. -/
theorem Truthful.close {path : List Nat} {d : Diagnostic} (h : M.Truthful s0 s) (hle : s.Le s')
    (hadded : s.added s' = [d]) (halarm : M.Alarm d) (hcache : M.cache s' = M.cache s)
    (hcyclic : M.cyclic s' = cycleMembers path id ++ M.cyclic s) (hknotted : M.Knotted)
    (hnone : ∀ a ∈ cycleMembers path id, ∀ u, ¬ M.Stands a u) :
    M.Settled s0 (M.Stands id) none s' := by
  have hself : id ∈ cycleMembers path id := List.mem_append_right _ (List.mem_singleton_self id)
  have halarmed : M.Alarmed s0 s' :=
    ⟨d, State.mem_added_right h.le hle (hadded ▸ List.mem_singleton_self d), halarm⟩
  refine ⟨settles_none (hnone id hself) halarmed,
    h.step hle (fun hb => .inl (hcache ▸ hb)) (fun a ha => ?_) fun _ _ _ _ => hknotted⟩
  rw [hcyclic] at ha
  exact (List.mem_append.mp ha).symm.imp_right fun ha => settles_none (hnone a ha) halarmed

/-- The answer is remembered, a failure for a member of a cycle. -/
theorem Settled.remember {r : Option α} (h : M.Settled s0 (M.Stands id) r s) (hle : s.Le s')
    (hadded : s.added s' = []) (hcyclic : M.cyclic s' = M.cyclic s)
    (hcache : M.cache s' = (id, M.noted (if (M.cyclic s).contains id then none else r)) :: M.cache s) :
    M.Settled s0 (M.Stands id) (if (M.cyclic s).contains id then none else r) s' := by
  have hsettles : M.Settles s0 (M.Stands id) (if (M.cyclic s).contains id then none else r) s' := by
    by_cases hid : id ∈ M.cyclic s
    · rw [if_pos (List.contains_iff_mem.mpr hid)]
      exact (h.truthful.cyclic id hid).mono hle
    · rw [if_neg fun hmem => hid (List.contains_iff_mem.mp hmem)]
      exact h.toSettles.mono hle
  refine ⟨hsettles, h.truthful.step hle (fun hb => ?_) (fun _ ha => .inl (hcyclic ▸ ha)) ?_⟩
  · rw [hcache] at hb
    rcases lookup_cons_cases hb with ⟨rfl, rfl⟩ | hb
    · exact .inr ⟨_, rfl, hsettles⟩
    · exact .inl hb
  · simp [hadded]

/-- Answers that are found one after the other. -/
theorem gives_each {env : Env} {x : ι → Check β} {D : ι → α → Prop} {is : List ι}
    (hx : ∀ i ∈ is, ∀ {s}, M.Truthful s0 s → Gives env s (x i) (M.Gave s0 (D i)))
    (hs : M.Truthful s0 s) :
    Gives env s (Package.forEachCheck x is) fun bs s' =>
      List.Forall₂ (fun i b => ∃ r, M.noted r = b ∧ ∀ a, r = some a ↔ D i a) is bs ∧
        M.Truthful s0 s' ∧ ((∃ i ∈ is, ∀ a, ¬ D i a) → M.Alarmed s0 s') := by
  induction is generalizing s with
  | nil => exact .pure ⟨.nil, hs, by simp⟩
  | cons i is ih =>
    rw [List.forall_mem_cons] at hx
    refine .bind (hx.1 hs) fun b s1 hb _ => ?_
    obtain ⟨r, rfl, hr⟩ := hb
    refine .bind (ih hx.2 hr.truthful) fun bs s2 hbs hle => .pure ?_
    obtain ⟨hanswers, hs2, halarmed⟩ := hbs
    refine ⟨.cons ⟨r, rfl, hr.answer⟩ hanswers, hs2, ?_⟩
    rintro ⟨j, hj, hno⟩
    rcases List.mem_cons.mp hj with rfl | hj
    · exact (hr.alarmed (Option.eq_none_iff_forall_ne_some.mpr fun a ha =>
        hno a ((hr.answer a).mp ha))).mono hle
    · exact halarmed ⟨j, hj, hno⟩

end Notes

/-! ## Cycles -/

/-- `R` leads from each that is open to those inside it, and to all with `M`. -/
structure Along (R : ν → ν → Prop) (node : Nat → ν) (path : List Nat) (M : ν → Prop) : Prop where
  chain : path.Pairwise fun a b => TransGen R (node b) (node a)
  leads : ∀ a ∈ path, ∀ {b}, M b → TransGen R (node a) b

section Along

variable {R : ν → ν → Prop} {node : Nat → ν} {path : List Nat} {M M' : ν → Prop} {id : Nat}

theorem Along.part (h : Along R node path M) (hM : ∀ {b}, M' b → M b) : Along R node path M' :=
  ⟨h.chain, fun a ha _ hb => h.leads a ha (hM hb)⟩

theorem Along.opened (h : Along R node path M) (hid : M (node id))
    (hM : ∀ {b}, M' b → R (node id) b) : Along R node (id :: path) M' := by
  refine ⟨List.pairwise_cons.mpr ⟨fun a ha => h.leads a ha hid, h.chain⟩, ?_⟩
  exact List.forall_mem_cons.mpr
    ⟨fun hb => .single (hM hb), fun a ha _ hb => .tail (h.leads a ha hid) (hM hb)⟩

theorem rel_of_mem_takeWhile {R : Nat → Nat → Prop} {xs : List Nat} {x y : Nat}
    (h : xs.Pairwise R) (hx : x ∈ xs) (hy : y ∈ xs.takeWhile (· != x)) : R y x := by
  induction xs with
  | nil => cases hx
  | cons z zs ih =>
    rw [List.pairwise_cons] at h
    by_cases hz : z = x
    · simp [hz] at hy
    · have hx' : x ∈ zs := (List.mem_cons.mp hx).resolve_left (Ne.symm hz)
      rw [List.takeWhile_cons_of_pos (by simpa using hz)] at hy
      rcases List.mem_cons.mp hy with rfl | hy
      · exact h.1 x hx'
      · exact ih h.2 hx' hy

/-- What is opened again closes a cycle with all that was opened since. -/
theorem Along.cycle (h : Along R node path M) (hid : M (node id)) (hpath : id ∈ path) :
    ∀ a ∈ cycleMembers path id, TransGen R (node a) (node a) := by
  intro a ha
  rcases List.mem_append.mp ha with ha | ha
  · have hmem : a ∈ path := (List.takeWhile_sublist _).mem ha
    have hback : TransGen R (node id) (node a) :=
      rel_of_mem_takeWhile (R := fun a b => TransGen R (node b) (node a)) h.chain hpath ha
    exact (h.leads a hmem hid).trans hback
  · rw [List.mem_singleton.mp ha]
    exact h.leads id hpath hid

end Along

end JaneCheck.Check
