import JaneCheck.Generic.Inference
import JaneCheck.Proofs.Kinds
import JaneCheck.Proofs.Parts

/-!
# What inference finds

Inference walks the type of a parameter beside the type of an argument. What it
has found only grows (`Inferred.Extends`): earlier bindings stay in front, and no
name is bound twice. Where the walk agrees, each type parameter at a position of
the parameter's type is bound, and unless there was a conflict the argument has the
bound type at that position (`Explains`).

The walk is described once, by what a step at one type can do (`Walk`). Then what
holds of the parts holds of the whole, by induction on the parameter's type.
-/

namespace JaneCheck

/-! ## Type parameters at positions -/

variable {t : Ty} {name : String}

namespace Ty

theorem anyGeneric_eq (ts : List Ty) : anyGeneric ts = ts.any hasGeneric := by
  induction ts with
  | nil => rfl
  | cons t ts ih => simp [anyGeneric, ih]

theorem paramsGeneric_eq (ps : List (Param Ty)) :
    paramsGeneric ps = ps.any fun p => p.type.hasGeneric := by
  induction ps with
  | nil => rfl
  | cons p ps ih => simp [paramsGeneric, ih]

theorem hasGeneric_core (t : Ty) : t.core.hasGeneric = t.hasGeneric := by
  cases t with
  | pointer t | reference t => simpa [core, hasGeneric] using hasGeneric_core t
  | _ => rfl

theorem hasGeneric_of_ownPart? {u : Ty} {p : Part} (h : t.ownPart? p = some u)
    (hu : u.hasGeneric = true) : t.hasGeneric = true := by
  unfold ownPart? at h
  split at h
  · cases h
    exact hu
  · cases h
    exact hu
  · cases h
    simp [hasGeneric, hu]
  · cases h
    simp [hasGeneric, hu]
  · rw [hasGeneric, anyGeneric_eq]
    exact List.any_eq_true.mpr ⟨u, List.mem_of_getElem? h, hu⟩
  next sig i =>
    obtain ⟨param, hparam, rfl⟩ := Option.map_eq_some_iff.mp h
    rw [hasGeneric, paramsGeneric_eq,
      List.any_eq_true.mpr ⟨param, List.mem_of_getElem? hparam, hu⟩, Bool.true_or]
  next sig =>
    cases h
    rw [hasGeneric, hu, Bool.or_true]
  · rw [hasGeneric, anyGeneric_eq]
    exact List.any_eq_true.mpr ⟨u, List.mem_of_getElem? h, hu⟩
  · cases h

theorem hasGeneric_of_part? {u : Ty} {p : Part} (h : t.part? p = some u) (hu : u.hasGeneric = true) :
    t.hasGeneric = true := by
  rw [← hasGeneric_core]
  exact hasGeneric_of_ownPart? h hu

theorem hasGeneric_of_category {t : Ty} (h : t.category = .generic) : t.hasGeneric = true := by
  cases t with
  | pointer t | reference t => exact hasGeneric_of_category (t := t) h
  | base c => exact beq_iff_eq.mpr h
  | generic => rfl
  | _ => cases h

theorem hasGeneric_of_at? {path : List Part} {q : Ty} (h : t.at? path = some q)
    (hq : q.hasGeneric = true) : t.hasGeneric = true := by
  induction path generalizing t with
  | nil =>
    cases h
    exact hq
  | cons p path ih =>
    obtain ⟨u, hu, hpath⟩ := at?_cons.mp h
    exact hasGeneric_of_part? hu (ih hpath)

end Ty

namespace Generic

theorem anyMentions_eq (name : String) (ts : List Ty) :
    anyMentions name ts = ts.any (mentions name) := by
  induction ts with
  | nil => rfl
  | cons t ts ih => simp [anyMentions, ih]

theorem paramsMention_eq (name : String) (ps : List (Param Ty)) :
    paramsMention name ps = ps.any fun p => mentions name p.type := by
  induction ps with
  | nil => rfl
  | cons p ps ih => simp [paramsMention, ih]

/-- A type that mentions a name is the type parameter itself, or a part mentions it. -/
theorem part?_of_mentions {name : String} {t : Ty} (h : mentions name t = true) :
    t.category = .generic ∧ t.core.kind = name ∨
      ∃ p u, t.part? p = some u ∧ mentions name u = true := by
  cases t with
  | base c =>
    obtain ⟨hcategory, hname⟩ := Bool.and_eq_true_iff.mp h
    exact .inl ⟨eq_of_beq hcategory, eq_of_beq hname⟩
  | generic n => exact .inl ⟨rfl, eq_of_beq h⟩
  | pointer t => exact part?_of_mentions (t := t) h
  | reference t => exact part?_of_mentions (t := t) h
  | slice t => exact .inr ⟨.element, t, rfl, h⟩
  | array t n => exact .inr ⟨.element, t, rfl, h⟩
  | map k v =>
    rw [mentions, Bool.or_eq_true] at h
    rcases h with h | h
    · exact .inr ⟨.key, k, rfl, h⟩
    · exact .inr ⟨.value, v, rfl, h⟩
  | tuple ts =>
    rw [mentions, anyMentions_eq, List.any_eq_true] at h
    obtain ⟨t, ht, hmentions⟩ := h
    obtain ⟨i, hi⟩ := List.mem_iff_getElem?.mp ht
    exact .inr ⟨.component i, t, hi, hmentions⟩
  | function sig =>
    rw [mentions, paramsMention_eq, Bool.or_eq_true, List.any_eq_true] at h
    rcases h with ⟨param, hparam, hmentions⟩ | hmentions
    · obtain ⟨i, hi⟩ := List.mem_iff_getElem?.mp hparam
      exact .inr ⟨.param i, param.type, by simp [Ty.part?, Ty.core, Ty.ownPart?, hi], hmentions⟩
    · exact .inr ⟨.result, sig.ret, rfl, hmentions⟩
  | struct id n gs =>
    rw [mentions, anyMentions_eq, List.any_eq_true] at h
    obtain ⟨g, hg, hmentions⟩ := h
    obtain ⟨i, hi⟩ := List.mem_iff_getElem?.mp hg
    exact .inr ⟨.argument i, g, hi, hmentions⟩
  | trait | enum => cases h

theorem at?_of_mentions (t : Ty) (h : mentions name t = true) :
    ∃ path q, t.at? path = some q ∧ q.category = .generic ∧ q.core.kind = name := by
  induction t using Ty.inductionOnParts with
  | step t ih =>
    rcases part?_of_mentions h with ⟨hcategory, hname⟩ | ⟨p, u, hu, hmentions⟩
    · exact ⟨[], t, rfl, hcategory, hname⟩
    · obtain ⟨path, q, hpath, hq⟩ := ih p u hu hmentions
      exact ⟨p :: path, q, Ty.at?_cons.mpr ⟨u, hu, hpath⟩, hq⟩

end Generic

/-! ## What is found only grows -/

namespace Inferred

variable {i j l : Inferred} {name : String} {t : Ty}

/-- The names that have a type. -/
def names (i : Inferred) : List String := i.bindings.map (·.1)

theorem get?_eq_none_iff : i.get? name = none ↔ name ∉ i.names := by
  unfold get? names
  rw [Option.map_eq_none_iff, List.find?_eq_none]
  constructor
  · intro h hmem
    obtain ⟨b, hb, rfl⟩ := List.mem_map.mp hmem
    exact h b hb (by simp)
  · intro h b hb heq
    exact h (List.mem_map.mpr ⟨b, hb, eq_of_beq heq⟩)

/-- `j` has found all that `i` has, in the same order, and has bound new names, each
of them once. -/
structure Extends (i j : Inferred) : Prop where
  bindings : ∃ new, j.bindings = i.bindings ++ new ∧ (new.map (·.1)).Nodup ∧
    ∀ b ∈ new, b.1 ∉ i.names
  conflicts : i.conflicts <+: j.conflicts

theorem Extends.refl (i : Inferred) : i.Extends i where
  bindings := ⟨[], by simp⟩
  conflicts := List.prefix_rfl

theorem Extends.get? (h : i.Extends j) (hget : i.get? name = some t) : j.get? name = some t := by
  obtain ⟨new, hnew, -⟩ := h.bindings
  unfold Inferred.get? at hget ⊢
  obtain ⟨b, hb, rfl⟩ := Option.map_eq_some_iff.mp hget
  rw [hnew, List.find?_append, hb]
  rfl

theorem Extends.trans (h : i.Extends j) (h' : j.Extends l) : i.Extends l where
  bindings := by
    obtain ⟨new, hnew, hnodup, hfresh⟩ := h.bindings
    obtain ⟨more, hmore, hnodup', hfresh'⟩ := h'.bindings
    have hnames : j.names = i.names ++ new.map (·.1) := by simp [names, hnew]
    refine ⟨new ++ more, by rw [hmore, hnew, List.append_assoc], ?_, ?_⟩
    · rw [List.map_append, List.nodup_append]
      refine ⟨hnodup, hnodup', ?_⟩
      rintro x hx y hy rfl
      obtain ⟨b, hb, rfl⟩ := List.mem_map.mp hy
      exact hfresh' b hb (by rw [hnames]; exact List.mem_append_right _ hx)
    · intro b hb hmem
      rcases List.mem_append.mp hb with hb | hb
      · exact hfresh b hb hmem
      · exact hfresh' b hb (by rw [hnames]; exact List.mem_append_left _ hmem)
  conflicts := h.conflicts.trans h'.conflicts

theorem Extends.conflicts_eq (h : i.Extends j) (h' : j.Extends l)
    (heq : l.conflicts = i.conflicts) : j.conflicts = i.conflicts := by
  have hle : j.conflicts.length ≤ i.conflicts.length := by
    rw [← heq]
    exact h'.conflicts.length_le
  exact (h.conflicts.eq_of_length_le hle).symm

theorem extends_record (i : Inferred) (name : String) (t : Ty) : i.Extends (i.record name t) := by
  unfold record
  split
  next hnone =>
    refine ⟨⟨[(name, t)], rfl, by simp, ?_⟩, List.prefix_rfl⟩
    intro b hb
    obtain rfl := List.mem_singleton.mp hb
    exact get?_eq_none_iff.mp hnone
  next kept hkept =>
    split
    · exact .refl i
    · exact ⟨⟨[], by simp⟩, List.prefix_append _ _⟩

/-- What is recorded is bound, to an equal type if that made no conflict. -/
theorem get?_record (i : Inferred) (name : String) (t : Ty) :
    ∃ kept, (i.record name t).get? name = some kept ∧
      ((i.record name t).conflicts = i.conflicts → (t == kept) = true) := by
  unfold record
  split
  next hnone =>
    refine ⟨t, ?_, fun _ => Ty.same_of_bare_eq rfl⟩
    have hold : i.bindings.find? (·.1 == name) = none := Option.map_eq_none_iff.mp hnone
    simp [get?, List.find?_append, hold]
  next kept hkept =>
    split
    next hsame => exact ⟨kept, hkept, fun _ => Ty.same_symm hsame⟩
    next hdiffer => exact ⟨kept, hkept, fun h => by simp at h⟩

end Inferred

/-! ## One step of the walk -/

namespace Generic

/-- What the types of a parameter and of an argument tell, from what was found before,
in one step: the outcome is that of their parts. -/
inductive Walk (P A : Ty) (out : Inferred) : Bool × Inferred → Prop
  | plain (h : P.hasGeneric = false) : Walk P A out (true, out)
  | refused : Walk P A out (false, out)
  | recorded (h : P.category = .generic) (hmodifiers : P.modifiers <+: A.modifiers) :
    Walk P A out (true, out.record P.core.kind (strip P.modifiers.length A))
  | slice {t a} (hP : P = .slice t) (hA : A = .slice a) : Walk P A out (infer t a out)
  | array {t a n m} (hP : P = .array t n) (hA : A = .array a m) : Walk P A out (infer t a out)
  | map {k v ka va} (hP : P = .map k v) (hA : A = .map ka va) :
    Walk P A out ((infer k ka out).1 && (infer v va (infer k ka out).2).1,
      (infer v va (infer k ka out).2).2)
  | function {sig given} (hP : P.core = .function sig) (hA : A.core = .function given)
      (hlen : sig.params.length = given.params.length) :
    Walk P A out
      ((infer sig.ret given.ret (inferParams sig.params given.params out).2).1 &&
        (inferParams sig.params given.params out).1,
      (infer sig.ret given.ret (inferParams sig.params given.params out).2).2)
  | struct {id name name' gs as} (hP : P.core = .struct id name gs)
      (hA : A.core = .struct id name' as) (hlen : gs.length = as.length) :
    Walk P A out (inferAll gs as out)

section Steps

variable {P A : Ty} {out : Inferred} {x : Bool × Inferred}

theorem inferCore_core (P A t : Ty) (out : Inferred) :
    inferCore P A t out = inferCore P A t.core out := by
  cases t with
  | pointer t | reference t =>
    rw [inferCore]
    exact inferCore_core P A t out
  | _ => rfl

/-- A type without type parameters has nothing to tell, and neither has an argument
without a type. -/
theorem Walk.start (hx : P.hasGeneric = true → Walk P A out x) :
    Walk P A out
      (if !P.hasGeneric then (true, out) else if A.isVoid || A.isNil then (false, out) else x) := by
  cases h : P.hasGeneric with
  | false => exact .plain h
  | true =>
    rw [Bool.not_true, if_neg Bool.false_ne_true]
    split
    · exact .refused
    · exact hx h

theorem Walk.startShape (hx : Walk P A out x) :
    Walk P A out
      (if !P.hasGeneric then (true, out) else if A.isVoid || A.isNil then (false, out)
        else if P.modifiers != A.modifiers then (false, out) else x) := by
  refine .start fun _ => ?_
  split
  · exact .refused
  · exact hx

theorem walk_record (h : P.category = .generic) : Walk P A out (record P A P.core.kind out) := by
  unfold record
  dsimp only
  split
  next hmodifiers => exact .recorded h (List.isPrefixOf_iff_prefix.mp hmodifiers)
  next => exact .refused

end Steps

/-- Each walk takes one of these steps. -/
theorem walk_infer (P A : Ty) (out : Inferred) : Walk P A out (infer P A out) := by
  have hcategory := P.category_core
  have hgeneric := P.hasGeneric_core
  have hrecord : P.category = .generic → Walk P A out (record P A P.core.kind out) := walk_record
  rw [infer, inferCore_core]
  -- `P` itself stays in the goal: its modifiers are compared, its core is walked
  cases hcore : P.core with
  | pointer t | reference t => simp at hcore
  | generic name =>
    rw [hcore] at hcategory hrecord
    unfold inferCore
    exact .start fun _ => hrecord hcategory.symm
  | base c =>
    rw [hcore] at hcategory hgeneric hrecord
    unfold inferCore
    refine .start fun h => hrecord ?_
    rw [← hcategory]
    exact eq_of_beq (hgeneric.trans h)
  | slice t =>
    unfold inferCore
    refine .startShape ?_
    dsimp only
    split
    next a =>
      cases hcore
      exact .slice rfl rfl
    next => exact .refused
  | array t n =>
    unfold inferCore
    refine .startShape ?_
    dsimp only
    split
    next a =>
      cases hcore
      exact .array rfl rfl
    next => exact .refused
  | map k v =>
    unfold inferCore
    refine .startShape ?_
    dsimp only
    split
    next a =>
      cases hcore
      exact .map rfl rfl
    next => exact .refused
  | function sig =>
    unfold inferCore
    refine .startShape ?_
    dsimp only
    split
    next given hgiven =>
      split
      next hlen => exact .function hcore (Ty.core_of_signature? hgiven) (eq_of_beq hlen)
      next => exact .refused
    next => exact .refused
  | struct id name gs =>
    unfold inferCore
    refine .startShape ?_
    dsimp only
    split
    next given as hgiven =>
      obtain ⟨name', hA⟩ := Ty.core_of_struct? hgiven
      split
      next hsame =>
        obtain ⟨hid, hlen⟩ := Bool.and_eq_true_iff.mp hsame
        obtain rfl := eq_of_beq hid
        exact .struct hcore hA (eq_of_beq hlen)
      next => exact .refused
    next => exact .refused
  | _ =>
    unfold inferCore
    exact .startShape .refused

theorem part?_of_category {t : Ty} {p : Ty.Part} (h : t.category = .generic) :
    t.part? p = none := by
  cases t with
  | pointer t => exact part?_of_category (t := t) h
  | reference t => exact part?_of_category (t := t) h
  | base | generic => rfl
  | _ => cases h

/-! ## What a walk explains -/

/-- Each type parameter at a position of `P` has a type in `j`. If there was no
conflict since `i`, then `A` has this type at the position, behind the modifiers of
the type parameter. -/
def Explains (i j : Inferred) (P A : Ty) : Prop :=
  ∀ path q, P.at? path = some q → q.category = .generic →
    ∃ a t, A.at? path = some a ∧ j.get? q.core.kind = some t ∧
      (j.conflicts = i.conflicts → (a == Ty.wrap q.modifiers t) = true)

section Explained

variable {P A : Ty} {i i' j j' out : Inferred}

theorem Explains.mono (h : Explains i' j' P A) (hi : i.Extends i') (hwalk : i'.Extends j')
    (hj : j'.Extends j) : Explains i j P A := by
  intro path q hq hgeneric
  obtain ⟨a, t, ha, ht, hsame⟩ := h path q hq hgeneric
  refine ⟨a, t, ha, hj.get? ht, fun heq => hsame ?_⟩
  have hstart : i'.conflicts = i.conflicts := hi.conflicts_eq (hwalk.trans hj) heq
  have hend : j'.conflicts = i.conflicts := (hi.trans hwalk).conflicts_eq hj heq
  rw [hstart, hend]

theorem explains_of_plain (h : P.hasGeneric = false) : Explains i j P A := by
  intro path q hq hgeneric
  have hP := Ty.hasGeneric_of_at? hq (Ty.hasGeneric_of_category hgeneric)
  rw [h] at hP
  cases hP

theorem explains_of_parts (hgeneric : P.category ≠ .generic)
    (h : ∀ p u, P.part? p = some u → ∃ a, A.part? p = some a ∧ Explains i j u a) :
    Explains i j P A := by
  intro path q hq hq'
  cases path with
  | nil =>
    cases hq
    exact absurd hq' hgeneric
  | cons p path =>
    obtain ⟨u, hu, hpath⟩ := Ty.at?_cons.mp hq
    obtain ⟨a, ha, hexplains⟩ := h p u hu
    obtain ⟨b, t, hb, ht⟩ := hexplains path q hpath hq'
    exact ⟨b, t, Ty.at?_cons.mpr ⟨a, ha, hb⟩, ht⟩

/-- A type is what is left without the first modifiers, behind them. -/
theorem wrap_strip {ms : List Modifier} (h : ms <+: t.leadingModifiers) :
    Ty.wrap ms (strip ms.length t) = t := by
  induction ms generalizing t with
  | nil => rfl
  | cons m ms ih =>
    cases t with
    | pointer t =>
      obtain ⟨rfl, hrest⟩ := List.cons_prefix_cons.mp h
      exact congrArg Ty.pointer (ih hrest)
    | reference t =>
      obtain ⟨rfl, hrest⟩ := List.cons_prefix_cons.mp h
      exact congrArg Ty.reference (ih hrest)
    | _ => cases List.prefix_nil.mp h

theorem prefix_leadingModifiers {ms : List Modifier} (h : ms <+: t.modifiers) :
    ms <+: t.leadingModifiers := by
  unfold Ty.modifiers at h
  split at h
  · rw [List.prefix_nil.mp h]
    exact List.nil_prefix
  · exact h

theorem explains_record (h : P.category = .generic) (hmodifiers : P.modifiers <+: A.modifiers) :
    Explains out (out.record P.core.kind (strip P.modifiers.length A)) P A := by
  intro path q hq _
  cases path with
  | nil =>
    cases hq
    obtain ⟨kept, hkept, hsame⟩ := out.get?_record P.core.kind (strip P.modifiers.length A)
    refine ⟨A, kept, rfl, hkept, fun heq => ?_⟩
    have hwrap := Ty.same_wrap P.modifiers (hsame heq)
    rwa [wrap_strip (prefix_leadingModifiers hmodifiers)] at hwrap
  | cons p path =>
    obtain ⟨u, hu, -⟩ := Ty.at?_cons.mp hq
    rw [part?_of_category h] at hu
    cases hu

/-- The walk only adds, and explains the parameter if it agrees. -/
structure Sound (P A : Ty) (out : Inferred) (r : Bool × Inferred) : Prop where
  grows : out.Extends r.2
  explains : r.1 = true → Explains out r.2 P A

/-- A walk beside each other of two lists is sound. -/
structure SoundAll (ts as : List Ty) (out : Inferred) (r : Bool × Inferred) : Prop where
  grows : out.Extends r.2
  explains : r.1 = true → ∀ (n : Nat) t a, ts[n]? = some t → as[n]? = some a → Explains out r.2 t a

theorem inferAll_cons (t a : Ty) (ts as : List Ty) (out : Inferred) :
    inferAll (t :: ts) (a :: as) out =
      ((infer t a out).1 && (inferAll ts as (infer t a out).2).1,
        (inferAll ts as (infer t a out).2).2) := by
  rw [inferAll]
  rfl

theorem soundAll_inferAll {ts : List Ty}
    (h : ∀ t ∈ ts, ∀ A out, Sound t A out (infer t A out)) (as : List Ty) (out : Inferred) :
    SoundAll ts as out (inferAll ts as out) := by
  induction ts generalizing as out with
  | nil =>
    simp only [inferAll]
    exact ⟨.refl out, by simp⟩
  | cons t ts ih =>
    cases as with
    | nil =>
      simp only [inferAll]
      exact ⟨.refl out, by simp⟩
    | cons a as =>
      have hfirst := h t (by simp) a out
      have hrest := ih (fun t ht => h t (by simp [ht])) as (infer t a out).2
      rw [inferAll_cons]
      refine ⟨hfirst.grows.trans hrest.grows, fun hok n u b hu hb => ?_⟩
      obtain ⟨hokFirst, hokRest⟩ := Bool.and_eq_true_iff.mp hok
      cases n with
      | zero =>
        cases hu
        cases hb
        exact (hfirst.explains hokFirst).mono (.refl out) hfirst.grows hrest.grows
      | succ n =>
        exact (hrest.explains hokRest n u b hu hb).mono hfirst.grows hrest.grows (.refl _)

theorem inferParams_eq (ps as : List (Param Ty)) (out : Inferred) :
    inferParams ps as out = inferAll (ps.map (·.type)) (as.map (·.type)) out := by
  induction ps generalizing as out with
  | nil => simp [inferParams, inferAll]
  | cons p ps ih =>
    cases as with
    | nil => simp [inferParams, inferAll]
    | cons a as =>
      obtain ⟨_, t, _, _, _⟩ := p
      simp [inferParams, inferAll, ih]

variable {r : Bool × Inferred}

theorem SoundAll.partner {ts as : List Ty} (h : SoundAll ts as out r) (hok : r.1 = true)
    (hlen : ts.length = as.length) {n : Nat} (ht : ts[n]? = some t) :
    ∃ a, as[n]? = some a ∧ Explains out r.2 t a := by
  obtain ⟨hn, -⟩ := List.getElem?_eq_some_iff.mp ht
  have ha : as[n]? = some as[n] := List.getElem?_eq_getElem (hlen ▸ hn)
  exact ⟨as[n], ha, h.explains hok n t as[n] ht ha⟩

/-! ### Shape by shape -/

theorem sound_element {a : Ty} (hgeneric : P.category ≠ .generic)
    (hP : ∀ p u, P.part? p = some u → p = .element ∧ u = t) (hA : A.part? .element = some a)
    (h : Sound t a out r) : Sound P A out r := by
  refine ⟨h.grows, fun hok => explains_of_parts hgeneric fun p u hu => ?_⟩
  obtain ⟨rfl, rfl⟩ := hP p u hu
  exact ⟨a, hA, h.explains hok⟩

theorem sound_map {k v ka va : Ty} {first second : Bool × Inferred} (hkey : Sound k ka out first)
    (hvalue : Sound v va first.2 second) :
    Sound (.map k v) (.map ka va) out (first.1 && second.1, second.2) := by
  refine ⟨hkey.grows.trans hvalue.grows, fun hok => explains_of_parts nofun fun p u hu => ?_⟩
  obtain ⟨hokKey, hokValue⟩ := Bool.and_eq_true_iff.mp hok
  cases p with
  | key =>
    cases hu
    exact ⟨ka, rfl, (hkey.explains hokKey).mono (.refl out) hkey.grows hvalue.grows⟩
  | value =>
    cases hu
    exact ⟨va, rfl, (hvalue.explains hokValue).mono hkey.grows hvalue.grows (.refl _)⟩
  | _ => cases hu

theorem sound_function {sig given : FnSig} {first second : Bool × Inferred}
    (hP : P.core = .function sig) (hA : A.core = .function given)
    (hlen : sig.params.length = given.params.length)
    (hparams : SoundAll (sig.params.map (·.type)) (given.params.map (·.type)) out first)
    (hret : Sound sig.ret given.ret first.2 second) :
    Sound P A out (second.1 && first.1, second.2) := by
  have hgeneric : P.category ≠ .generic := by
    rw [← Ty.category_core, hP]
    nofun
  refine ⟨hparams.grows.trans hret.grows, fun hok => explains_of_parts hgeneric fun p u hu => ?_⟩
  obtain ⟨hokRet, hokParams⟩ := Bool.and_eq_true_iff.mp hok
  rw [Ty.part?, hP] at hu
  rw [Ty.part?, hA]
  cases p with
  | param n =>
    have hn : (sig.params.map (·.type))[n]? = some u := by rw [List.getElem?_map]; exact hu
    obtain ⟨a, ha, hexplains⟩ := hparams.partner hokParams (by simpa using hlen) hn
    refine ⟨a, ?_, hexplains.mono (.refl out) hparams.grows hret.grows⟩
    rw [List.getElem?_map] at ha
    exact ha
  | result =>
    cases hu
    exact ⟨given.ret, rfl, (hret.explains hokRet).mono hparams.grows hret.grows (.refl _)⟩
  | _ => cases hu

theorem sound_struct {id : StructId} {name' : String} {gs as : List Ty}
    (hP : P.core = .struct id name gs) (hA : A.core = .struct id name' as)
    (hlen : gs.length = as.length) (h : SoundAll gs as out r) : Sound P A out r := by
  have hgeneric : P.category ≠ .generic := by
    rw [← Ty.category_core, hP]
    nofun
  refine ⟨h.grows, fun hok => explains_of_parts hgeneric fun p u hu => ?_⟩
  rw [Ty.part?, hP] at hu
  rw [Ty.part?, hA]
  cases p with
  | argument n => exact h.partner hok hlen hu
  | _ => cases hu

end Explained

/-- Every walk is sound. -/
theorem sound_infer (P A : Ty) (out : Inferred) : Sound P A out (infer P A out) := by
  -- a part is walked after its neighbours, so what was found before varies with it
  induction P using Ty.inductionOnParts generalizing A out with
  | step P ih =>
    have hwalk := walk_infer P A out
    generalize infer P A out = r at hwalk ⊢
    cases hwalk with
    | plain h => exact ⟨.refl out, fun _ => explains_of_plain h⟩
    | refused => exact ⟨.refl out, nofun⟩
    | recorded h hmodifiers =>
      exact ⟨out.extends_record _ _, fun _ => explains_record h hmodifiers⟩
    | @slice t a hP hA =>
      subst hP hA
      refine sound_element nofun ?_ rfl (ih .element t rfl a out)
      rintro (_ | _) u ⟨⟩
      exact ⟨rfl, rfl⟩
    | @array t a n m hP hA =>
      subst hP hA
      refine sound_element nofun ?_ rfl (ih .element t rfl a out)
      rintro (_ | _) u ⟨⟩
      exact ⟨rfl, rfl⟩
    | @map k v ka va hP hA =>
      subst hP hA
      exact sound_map (ih .key k rfl ka out) (ih .value v rfl va _)
    | @function sig given hP hA hlen =>
      rw [inferParams_eq]
      refine sound_function hP hA hlen (soundAll_inferAll (fun t ht => ?_) _ out)
        (ih .result sig.ret (by rw [Ty.part?, hP]; rfl) given.ret _)
      obtain ⟨p, hp⟩ := Ty.part?_of_mem_params hP ht
      exact ih p t hp
    | @struct id name name' gs as hP hA hlen =>
      refine sound_struct hP hA hlen (soundAll_inferAll (fun t ht => ?_) as out)
      obtain ⟨p, hp⟩ := Ty.part?_of_mem_arguments hP ht
      exact ih p t hp

/-- Inference keeps what was found and binds new names, each once. If it succeeds,
every type parameter that the parameter's type mentions is bound; and if there was
no new conflict, then wherever that type has a type parameter, the argument's type
has the bound type behind the same modifiers. -/
theorem infer_sound (P A : Ty) (out : Inferred) :
    out.Extends (infer P A out).2 ∧
    ((infer P A out).1 = true →
      (∀ name, mentions name P = true → ∃ t, (infer P A out).2.get? name = some t) ∧
      ((infer P A out).2.conflicts = out.conflicts →
        ∀ path q, P.at? path = some q → q.category = .generic →
          ∃ a t, A.at? path = some a ∧ (infer P A out).2.get? q.core.kind = some t ∧
            (a == Ty.wrap q.modifiers t) = true)) := by
  have hsound := sound_infer P A out
  refine ⟨hsound.grows, fun hok => ⟨fun name hname => ?_, fun hconflicts path q hq hgeneric => ?_⟩⟩
  · obtain ⟨path, q, hq, hgeneric, rfl⟩ := at?_of_mentions P hname
    obtain ⟨a, t, -, ht, -⟩ := hsound.explains hok path q hq hgeneric
    exact ⟨t, ht⟩
  · obtain ⟨a, t, ha, ht, hsame⟩ := hsound.explains hok path q hq hgeneric
    exact ⟨a, t, ha, ht, hsame hconflicts⟩

/-- `[K:[]*V]` -/
def tableParam : Ty := .map (.generic "K") (.slice (.pointer (.generic "V")))

/-- `[str:[]**int]` -/
def tableArg : Ty := .map (.base .str) (.slice (.pointer (.pointer (.base .int))))

/-- `K` is bound before. -/
def keyFound : Inferred := { bindings := [("K", .base .str)] }

theorem infer_sound_table :
    (infer tableParam tableArg keyFound).1 = true ∧
    (infer tableParam tableArg keyFound).2.conflicts = keyFound.conflicts ∧
    ∃ a t, tableArg.at? [.value, .element] = some a ∧
      (infer tableParam tableArg keyFound).2.get? "V" = some t ∧ (a == .pointer t) = true := by
  have hok : (infer tableParam tableArg keyFound).1 = true := by decide +kernel
  have hconflicts : (infer tableParam tableArg keyFound).2.conflicts = keyFound.conflicts :=
    List.isEmpty_iff.mp (by decide +kernel)
  exact ⟨hok, hconflicts, ((infer_sound tableParam tableArg keyFound).2 hok).2 hconflicts
    [.value, .element] (.pointer (.generic "V")) rfl rfl⟩

end Generic

end JaneCheck
