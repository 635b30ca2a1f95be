import JaneCheck.Check.Call
import JaneCheck.Proofs.Replay
import Mathlib.Data.List.Perm.Subperm

/-!
# Pairing loses and doubles no argument

The walk over the arguments keeps what it placed sorted by slots: the places of the
arguments in all slots together are part of the places that it has passed, each at
most once, and all of them while nothing is wrong (`Progress.Sound`). One step puts an
argument into a slot, refuses it or stops, and keeps this; so does the whole walk.
-/

namespace JaneCheck

open Syntax (Arg)

namespace Bound

/-- The arguments in the slot. -/
def args : Bound → List Nat
  | .empty => []
  | .single i | .spread i => [i]
  | .many is => is

/-- What a slot may hold. -/
def Fits (slot : Slot) : Bound → Prop
  | .empty => True
  | .single _ => slot.variadic = false
  | .spread _ => slot.variadic = true
  | .many is => slot.variadic = true ∧ is.Pairwise (· < ·)

end Bound

namespace Pairing

/-- The places of all arguments that are in a slot, slot by slot. -/
def placed (r : Pairing) : List Nat := r.bound.flatMap Bound.args

/-- The pairing sorts part of the first `n` arguments into slots. -/
structure Sorts (slots : List Slot) (n : Nat) (r : Pairing) : Prop where
  length : r.bound.length = slots.length
  fits : ∀ {k : Nat} {slot : Slot} {b : Bound}, slots[k]? = some slot →
    r.bound[k]? = some b → b.Fits slot
  placed : r.placed.Subperm (List.range n)
  /-- An argument is left out for a reason. -/
  complete : r.errors = [] → r.placed.Perm (List.range n)

variable {r : Pairing} {slots : List Slot} {n : Nat}

theorem Sorts.nodup (h : r.Sorts slots n) : r.placed.Nodup := by
  obtain ⟨l, hperm, hsub⟩ := h.placed
  exact hperm.nodup_iff.mp (List.nodup_range.sublist hsub)

theorem Sorts.lt (h : r.Sorts slots n) {i : Nat} (hi : i ∈ r.placed) : i < n :=
  List.mem_range.mp (h.placed.subset hi)

/-- How often a problem is among the errors. -/
def count (r : Pairing) (problem : Problem) : Nat := r.errors.countP (·.problem = problem)

/-! ## One argument -/

/-- An argument comes behind those that its slot has, or the slot does not take it. -/
theorem bindArg_spec (slot : Slot) (current : Bound) (i : Nat) (arg : Arg)
    (hfits : current.Fits slot) (hlt : ∀ j ∈ current.args, j < i) :
    match bindArg slot current i arg with
    | .ok b => b.Fits slot ∧ b.args = current.args ++ [i]
    | .error problem => problem ≠ .tooManyArguments := by
  cases current with
  | empty =>
    dsimp only [bindArg]
    cases hvariadic : slot.variadic with
    | false => exact ⟨hvariadic, rfl⟩
    | true =>
      cases arg.value.isSpread with
      | false => exact ⟨⟨hvariadic, List.pairwise_singleton _ _⟩, rfl⟩
      | true => exact ⟨hvariadic, rfl⟩
  | single j | spread j =>
    dsimp only [bindArg]
    cases slot.variadic && arg.name.isNone <;> exact nofun
  | many is =>
    dsimp only [bindArg]
    cases arg.name.isNone && !arg.value.isSpread with
    | false => cases slot.variadic && arg.name.isNone <;> exact nofun
    | true =>
      refine ⟨⟨hfits.1, List.pairwise_append.mpr ⟨hfits.2, List.pairwise_singleton _ _, ?_⟩⟩, rfl⟩
      intro j hj k hk
      rw [List.mem_singleton.mp hk]
      exact hlt j hj

/-- The slot that an argument goes to is there; else something is wrong, and none but
the last argument is too many. -/
theorem target_cases (slots : List Slot) (p : Progress) (arg : Arg) :
    (∃ k, target slots p arg = .slot k ∧ k < slots.length) ∨
    (∃ d, target slots p arg = .skip d ∧ d.problem ≠ .tooManyArguments ∧
      d.problem ≠ .mixedVariadic) ∨
    ∃ span, target slots p arg = .stop ⟨.tooManyArguments, span⟩ := by
  unfold target
  split
  next name _ =>
    split
    next k hk => exact .inl ⟨k, rfl, (List.findIdx?_eq_some_iff_findIdx_eq.mp hk).1⟩
    next => exact .inr (.inl ⟨_, rfl, nofun, nofun⟩)
  next =>
    split
    · exact .inr (.inl ⟨_, rfl, nofun, nofun⟩)
    split
    next hlt => exact .inl ⟨_, rfl, hlt⟩
    next => exact .inr (.inr ⟨_, rfl⟩)

/-! ## The walk -/

/-- What holds before each argument: no argument was too many, and mixed variadic arguments
are among the errors if they are noted as reported. -/
structure Progress.Sound (slots : List Slot) (n : Nat) (p : Progress) : Prop where
  sorts : p.toPairing.Sorts slots n
  overflow : p.count .tooManyArguments = 0
  mixed : p.count .mixedVariadic = if p.mixedReported then 1 else 0

theorem Progress.Sound.mixed_le {p : Progress} (h : p.Sound slots n) :
    p.count .mixedVariadic ≤ 1 := by
  rw [h.mixed]
  split <;> decide

/-- An argument more in one slot is an argument more in all of them. -/
theorem perm_flatMap_set {bs : List Bound} {k i : Nat} {old new : Bound} (h : bs[k]? = some old)
    (hargs : new.args = old.args ++ [i]) :
    ((bs.set k new).flatMap Bound.args).Perm (bs.flatMap Bound.args ++ [i]) := by
  induction bs generalizing k with
  | nil => cases h
  | cons b bs ih =>
    cases k with
    | zero =>
      cases h
      simp only [List.set_cons_zero, List.flatMap_cons, hargs, List.append_assoc]
      exact List.perm_append_comm.append_left _
    | succ k =>
      simp only [List.set_cons_succ, List.flatMap_cons, List.append_assoc]
      exact (ih h).append_left _

section Walk

variable {slots : List Slot} {n k : Nat} {p : Progress} {arg : Arg}

theorem count_append (errors : List Diagnostic) (bound : List Bound) (d : Diagnostic)
    (problem : Problem) :
    count { bound, errors := errors ++ [d] } problem =
      count { bound, errors } problem + if d.problem = problem then 1 else 0 := by
  simp [count, List.countP_append, List.countP_singleton]

theorem Sorts.skip (h : r.Sorts slots n) (m : Nat) {errors : List Diagnostic}
    (herrors : errors ≠ []) : Sorts slots (n + m) { r with errors } where
  length := h.length
  fits := h.fits
  placed := h.placed.trans (List.range_sublist.mpr (Nat.le_add_right n m)).subperm
  complete he := absurd he herrors

/-- An argument that is put behind the others of its slot. -/
theorem Sorts.place (h : r.Sorts slots n) {slot : Slot} {old new : Bound}
    (hslot : slots[k]? = some slot) (hold : r.bound[k]? = some old) (hfits : new.Fits slot)
    (hargs : new.args = old.args ++ [n]) :
    Sorts slots (n + 1) { r with bound := r.bound.set k new } where
  length := by rw [List.length_set, h.length]
  fits {j slot' b} hslot' hb := by
    rw [List.getElem?_set] at hb
    split at hb
    next hj =>
      subst hj
      rw [hslot] at hslot'
      cases hslot'
      split at hb <;> cases hb
      exact hfits
    next => exact h.fits hslot' hb
  placed := by
    rw [List.range_succ]
    refine (perm_flatMap_set hold hargs).subperm_right.mpr ?_
    exact (List.subperm_append_right [n]).mpr h.placed
  complete he := by
    rw [List.range_succ]
    exact (perm_flatMap_set hold hargs).trans ((h.complete he).append_right [n])

theorem sound_refuse {problem : Problem} {span : Span} (h : p.Sound slots n)
    (hproblem : problem ≠ .tooManyArguments) : (refuse p problem span).Sound slots (n + 1) := by
  unfold refuse
  split
  next hagain =>
    -- the error is there from the last time
    have hmixed : p.mixedReported = true := by simp_all
    refine ⟨h.sorts.skip 1 fun hnil => ?_, h.overflow, h.mixed⟩
    have hcount := h.mixed
    rw [count, hnil, hmixed] at hcount
    cases hcount
  next hfirst =>
    refine ⟨h.sorts.skip 1 (by simp), ?_, ?_⟩
    · rw [count_append, if_neg hproblem]
      exact h.overflow
    · have hmixed := h.mixed
      rw [count_append]
      by_cases hp : problem = .mixedVariadic
      · have hno : p.mixedReported = false := by simp_all
        rw [hno] at hmixed
        simp [hp, hmixed]
      · simpa [hp] using hmixed

theorem sound_put (h : p.Sound slots n) (hk : k < slots.length) :
    (put slots p k n arg).Sound slots (n + 1) := by
  obtain ⟨slot, hslot⟩ : ∃ slot, slots[k]? = some slot := ⟨_, List.getElem?_eq_getElem hk⟩
  obtain ⟨old, hold⟩ : ∃ old, p.bound[k]? = some old :=
    ⟨_, List.getElem?_eq_getElem (h.sorts.length ▸ hk)⟩
  have hlt : ∀ j ∈ old.args, j < n := fun j hj =>
    h.sorts.lt (List.mem_flatMap.mpr ⟨old, List.mem_of_getElem? hold, hj⟩)
  have hspec := bindArg_spec slot old n arg (h.sorts.fits hslot hold) hlt
  unfold put
  rw [hslot, hold]
  dsimp only
  -- the position plays no part in what is sound
  generalize hq : (if arg.name.isNone && !slot.variadic
    then { p with position := p.position + 1 } else p) = q
  have hsame : q.toPairing = p.toPairing ∧ q.Sound slots n := by
    subst hq
    split <;> exact ⟨rfl, h.sorts, h.overflow, h.mixed⟩
  obtain ⟨hpairing, hsound⟩ := hsame
  rw [← hpairing] at hold
  cases hbind : bindArg slot old n arg with
  | ok b =>
    rw [hbind] at hspec
    exact ⟨hsound.sorts.place hslot hold hspec.1 hspec.2, hsound.overflow, hsound.mixed⟩
  | error problem =>
    rw [hbind] at hspec
    exact sound_refuse hsound hspec

/-- What holds after the walk: an argument that is too many ends it. -/
theorem sound_walk {args : List Arg} (h : p.Sound slots n) :
    (walk slots args n p).toPairing.Sorts slots (n + args.length) ∧
    (walk slots args n p).count .tooManyArguments ≤ 1 ∧
    (walk slots args n p).count .mixedVariadic ≤ 1 := by
  induction args generalizing n p with
  | nil => exact ⟨h.sorts, h.overflow.symm ▸ Nat.zero_le 1, h.mixed_le⟩
  | cons arg args ih =>
    rw [List.length_cons, Nat.add_comm args.length, ← Nat.add_assoc]
    -- that a name was seen plays no part in what is sound
    have hseen : Progress.Sound slots n { p with namedSeen := p.namedSeen || arg.name.isSome } :=
      { h with }
    unfold walk
    rcases target_cases slots p arg with ⟨k, ht, hk⟩ | ⟨d, ht, hoverflow, hmixed⟩ | ⟨span, ht⟩
    · rw [ht]
      exact ih (sound_put hseen hk)
    · rw [ht]
      refine ih ⟨h.sorts.skip 1 (by simp), ?_, ?_⟩
      · rw [count_append, if_neg hoverflow]
        exact h.overflow
      · rw [count_append, if_neg hmixed]
        exact h.mixed
    · rw [ht]
      refine ⟨Nat.add_assoc n 1 _ ▸ h.sorts.skip _ (by simp), ?_, ?_⟩
      · rw [count_append, if_pos rfl]
        exact Nat.succ_le_succ (Nat.le_of_eq h.overflow)
      · rw [count_append, if_neg nofun]
        exact h.mixed_le

end Walk

theorem sound_start (slots : List Slot) :
    Progress.Sound slots 0 { bound := slots.map fun _ => .empty } := by
  have hplaced : placed { bound := slots.map fun _ => .empty } = [] := by
    simp [placed, Bound.args]
  refine ⟨⟨by simp, fun _ hb => ?_, ?_, fun _ => ?_⟩, rfl, rfl⟩
  · obtain ⟨_, -, rfl⟩ := List.mem_map.mp (List.mem_of_getElem? hb)
    trivial
  · exact hplaced ▸ List.nil_subperm
  · exact hplaced ▸ .nil

end Pairing

theorem sorts_pair (slots : List Slot) (args : List Arg) :
    (pair slots args).Sorts slots args.length ∧
    (pair slots args).count .tooManyArguments ≤ 1 ∧ (pair slots args).count .mixedVariadic ≤ 1 := by
  rw [← Nat.zero_add args.length]
  exact Pairing.sound_walk (Pairing.sound_start slots)

/-! ## Binding -/

namespace Check

section Binding

variable {env : Env} {s s' : State} {sig : FnSig} {args : List Arg} {pairing : Pairing}
  {known : Known} {span : Span}

theorem mem_added_forM {α : Type} {as : List α} {f : α → Check Unit} {a : α} {d : Diagnostic}
    (ha : a ∈ as) (hd : ∀ {s s'}, (f a env).run s = some ((), s') → d ∈ s.added s')
    (h : (as.forM f env).run s = some ((), s')) : d ∈ s.added s' := by
  obtain ⟨s1, s2, hle, hrun, hle'⟩ := run_of_mem_forM (I := s.Le)
    (fun _ _ _ _ hle hrun => hle.trans (Step.le _ hrun)) ha (.refl s) h
  exact State.mem_added_left hle' (State.mem_added_right hle (Step.le _ hrun) (hd hrun))

theorem errors_nil_of_bindArgs
    (h : (bindArgs sig args pairing known span env).run s = some ((), s'))
    (hsilent : s.added s' = []) : pairing.errors = [] := by
  obtain ⟨⟨⟩, s1, herrors, hrest⟩ := run_bind.mp h
  refine List.eq_nil_iff_forall_not_mem.mpr fun d hd => ?_
  have hadded := State.mem_added_left (Step.le _ hrest)
    (mem_added_forM hd mem_added_report herrors)
  rw [hsilent] at hadded
  cases hadded

/-- A parameter that got nothing and needs something is reported. -/
theorem bound_ne_empty_of_bindArgs {param : Param Ty} {b : Bound}
    (h : (bindArgs sig args pairing known span env).run s = some ((), s'))
    (hsilent : s.added s' = []) (hmem : (param, b) ∈ sig.params.zip pairing.bound)
    (hvariadic : param.variadic = false) (hdefault : param.hasDefault = false) : b ≠ .empty := by
  rintro rfl
  obtain ⟨⟨⟩, s1, herrors, hrest⟩ := run_bind.mp h
  have hmissing : ⟨.missingArgument param.name, span⟩ ∈ s1.added s' := by
    refine mem_added_forM hmem (fun hrun => ?_) hrest
    simp only [bindParam, hvariadic, hdefault] at hrun
    exact mem_added_report hrun
  have hadded := State.mem_added_right (Step.le _ herrors) (Step.le _ hrest) hmissing
  rw [hsilent] at hadded
  cases hadded

end Binding

/-- Pairing sorts the arguments into slots: each slot holds what its kind allows, no argument
is in two slots or twice in one, and each of the two problems that concern the arguments as
a whole is an error once at most. While there is no error every argument is in a slot. If
binding the pairing to parameters, which are variadic where the slots are, reports nothing,
there is no error and each parameter that needs an argument got exactly one. -/
theorem pair_partitions (slots : List Slot) (args : List Arg) :
    (∀ (k : Nat) (slot : Slot), slots[k]? = some slot →
      ∃ b, (pair slots args).bound[k]? = some b ∧ b.Fits slot) ∧
    (pair slots args).bound.length = slots.length ∧
    (pair slots args).placed.Nodup ∧ (∀ i ∈ (pair slots args).placed, i < args.length) ∧
    (pair slots args).count .tooManyArguments ≤ 1 ∧ (pair slots args).count .mixedVariadic ≤ 1 ∧
    ((pair slots args).errors = [] → (pair slots args).placed.Perm (List.range args.length)) ∧
    ∀ (p : Package) (o : Options) (n : Nat) (c : Context) (s s' : State) (sig : FnSig)
      (known : Known) (span : Span),
      sig.params.map (·.variadic) = slots.map (·.variadic) →
      run p o n c (bindArgs sig args (pair slots args) known span) s = some ((), s') →
      s'.diags = s.diags →
      (pair slots args).errors = [] ∧
      ∀ (k : Nat) (param : Param Ty), sig.params[k]? = some param →
        param.variadic = false → param.hasDefault = false →
        ∃ i < args.length, (pair slots args).bound[k]? = some (.single i) := by
  obtain ⟨hsorts, hoverflow, hmixed⟩ := sorts_pair slots args
  have hbound : ∀ (k : Nat) (slot : Slot), slots[k]? = some slot →
      ∃ b, (pair slots args).bound[k]? = some b ∧ b.Fits slot := by
    intro k slot hslot
    have hk : k < (pair slots args).bound.length :=
      hsorts.length ▸ (List.getElem?_eq_some_iff.mp hslot).1
    exact ⟨_, List.getElem?_eq_getElem hk, hsorts.fits hslot (List.getElem?_eq_getElem hk)⟩
  refine ⟨hbound, hsorts.length, hsorts.nodup, fun i => hsorts.lt, hoverflow, hmixed,
    hsorts.complete, ?_⟩
  intro p o n c s s' sig known span hvariadics hrun hdiags
  have hsilent : s.added s' = [] := by simp [State.added, hdiags, ← Array.length_toList]
  refine ⟨errors_nil_of_bindArgs hrun hsilent, fun k param hparam hvariadic hdefault => ?_⟩
  obtain ⟨slot, hslot, hkind⟩ : ∃ slot, slots[k]? = some slot ∧ slot.variadic = false := by
    have hk := congrArg (·[k]?) hvariadics
    simp only [List.getElem?_map, hparam, Option.map_some] at hk
    obtain ⟨slot, hslot, hkind⟩ := Option.map_eq_some_iff.mp hk.symm
    exact ⟨slot, hslot, hkind.trans hvariadic⟩
  obtain ⟨b, hb, hfits⟩ := hbound k slot hslot
  have hmem : (param, b) ∈ sig.params.zip (pair slots args).bound := by
    refine List.mem_of_getElem? (i := k) ?_
    rw [List.getElem?_zip_eq_some]
    exact ⟨hparam, hb⟩
  have hne := bound_ne_empty_of_bindArgs hrun hsilent hmem hvariadic hdefault
  cases b with
  | empty => exact absurd rfl hne
  | single i =>
    have hi : i ∈ (pair slots args).placed :=
      List.mem_flatMap.mpr ⟨.single i, List.mem_of_getElem? hb, by simp [Bound.args]⟩
    exact ⟨i, hsorts.lt hi, hb⟩
  | spread i => simp [Bound.Fits, hkind] at hfits
  | many is => simp [Bound.Fits, hkind] at hfits

/-- `fn(first: int, rest: ...int, last: int)` -/
def middleVariadic : FnSig where
  params := [⟨"first", .base .int, false, false, false⟩,
    ⟨"rest", .slice (.base .int), false, true, false⟩, ⟨"last", .base .int, false, false, false⟩]
  ret := .void
  isMethod := false
  isGeneric := false
  isUnsafe := false

/-- `10, 20, 30, last: 40` -/
def middleArgs : List Arg :=
  [⟨none, .literal (.int 10) ⟨2, 4, 0⟩, ⟨2, 4, 0⟩⟩, ⟨none, .literal (.int 20) ⟨6, 8, 0⟩, ⟨6, 8, 0⟩⟩,
    ⟨none, .literal (.int 30) ⟨10, 12, 0⟩, ⟨10, 12, 0⟩⟩,
    ⟨some ⟨"last", ⟨14, 18, 0⟩⟩, .literal (.int 40) ⟨20, 22, 0⟩, ⟨14, 22, 0⟩⟩]

theorem pair_partitions_middle :
    (pair (slots middleVariadic.params) middleArgs).bound = [.single 0, .many [1, 2], .single 3] ∧
    ∃ s', run .empty {} 3 {} (bindArgs middleVariadic middleArgs
        (pair (slots middleVariadic.params) middleArgs) [] ⟨0, 23, 0⟩) {} = some ((), s') ∧
      s'.diags = #[] ∧ (pair (slots middleVariadic.params) middleArgs).placed.Perm [0, 1, 2, 3] ∧
      ∃ i < 4, (pair (slots middleVariadic.params) middleArgs).bound[2]? = some (.single i) := by
  obtain ⟨-, -, -, -, -, -, hcomplete, hbinding⟩ :=
    pair_partitions (slots middleVariadic.params) middleArgs
  refine ⟨rfl, _, rfl, rfl, hcomplete rfl, ?_⟩
  exact (hbinding .empty {} 3 {} {} _ middleVariadic [] ⟨0, 23, 0⟩ rfl rfl rfl).2 2 _ rfl rfl rfl

end Check

end JaneCheck
