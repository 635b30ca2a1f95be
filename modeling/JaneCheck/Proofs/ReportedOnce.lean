import JaneCheck.Proofs.Stages
import Mathlib.Data.Char
import Mathlib.Data.List.Destutter
import Mathlib.Data.List.Lex
import Mathlib.Data.Prod.Lex

/-!
# What a report lists

The diagnostics of a file are sorted by their place, which is their span and
key, and a diagnostic that equals the one before it is dropped. The sort is
stable, so diagnostics of one place keep the order in which they were found,
and two equal ones stay apart when another of their place was found in between.
-/

namespace JaneCheck

/-! ## Places -/

namespace Diagnostic

/-- Where a report lists a diagnostic: by span, then by key. -/
def place (d : Diagnostic) : ℕ ×ₗ ℕ ×ₗ ℕ ×ₗ List Char :=
  toLex (d.span.start, toLex (d.span.stop, toLex (d.span.file, d.problem.key.toList)))

theorem place_eq_iff {a b : Diagnostic} :
    a.place = b.place ↔ a.span = b.span ∧ a.problem.key = b.problem.key := by
  obtain ⟨_, ⟨start, stop, file⟩⟩ := a
  obtain ⟨_, ⟨start', stop', file'⟩⟩ := b
  simp [place, String.toList_inj, and_assoc]

theorem le_iff_place {a b : Diagnostic} : a.le b = true ↔ a.place ≤ b.place := by
  obtain ⟨problem, ⟨start, stop, file⟩⟩ := a
  obtain ⟨problem', ⟨start', stop', file'⟩⟩ := b
  simp only [le, place, Span.le, Prod.Lex.toLex_le_toLex]
  split
  next h =>
    cases h
    have hkey : problem'.key < problem.key ↔ problem'.key.toList < problem.key.toList := Iff.rfl
    simp only [hkey, Bool.not_eq_true', decide_eq_false_iff_not, not_lt, lt_self_iff_false,
      true_and, false_or]
  next h =>
    simp only [Span.mk.injEq, not_and] at h
    simp only [Bool.or_eq_true, Bool.and_eq_true, decide_eq_true_eq, beq_iff_eq]
    omega

theorem trans_le (a b c : Diagnostic) (hab : a.le b = true) (hbc : b.le c = true) :
    a.le c = true := by
  rw [le_iff_place] at *
  exact hab.trans hbc

theorem total_le (a b : Diagnostic) : (a.le b || b.le a) = true := by
  rw [Bool.or_eq_true, le_iff_place, le_iff_place]
  exact le_total a.place b.place

end Diagnostic

namespace Report

/-! ## Stable sorting -/

/-- The diagnostics of one place keep the order in which they were found. -/
theorem filter_mergeSort_place (ds : List Diagnostic) (d : Diagnostic) :
    (ds.mergeSort Diagnostic.le).filter (·.place = d.place) = ds.filter (·.place = d.place) := by
  -- Those of one place are sorted as they stand, so the sort has them as a sublist.
  have hsorted : (ds.filter (·.place = d.place)).Pairwise (·.le · = true) := by
    refine List.pairwise_of_forall_mem_list fun a ha b hb => Diagnostic.le_iff_place.mpr ?_
    rw [of_decide_eq_true (List.mem_filter.mp ha).2, of_decide_eq_true (List.mem_filter.mp hb).2]
  have hsub := (List.sublist_mergeSort Diagnostic.trans_le Diagnostic.total_le hsorted
    List.filter_sublist).filter (·.place = d.place)
  rw [List.filter_filter] at hsub
  simp only [Bool.and_self] at hsub
  exact (hsub.eq_of_length ((List.mergeSort_perm ds _).filter _).length_eq.symm).symm

/-! ## Dropping neighbours -/

theorem dropRepeats_eq_destutter [DecidableEq α] (as : List α) :
    dropRepeats (· == ·) as = as.destutter (· ≠ ·) := by
  have hgo : ∀ (last : α) (as : List α),
      last :: dropRepeats.go (· == ·) last as = as.destutter' (· ≠ ·) last := by
    intro last as
    induction as generalizing last with
    | nil => rfl
    | cons a as ih =>
      unfold dropRepeats.go
      split
      next h => rw [List.destutter'_cons_neg as (by simpa using h), ih]
      next h => rw [List.destutter'_cons_pos as (by simpa using h), ih]
  cases as with
  | nil => rfl
  | cons a as => exact hgo a as

/-- What has no equal neighbours survives where equal neighbours are dropped. -/
theorem sublist_destutter [DecidableEq α] {as bs : List α} (h : bs.Sublist as)
    (hb : bs.IsChain (· ≠ ·)) : bs.Sublist (as.destutter (· ≠ ·)) := by
  have hgo : ∀ (a : α) (as bs : List α), bs.Sublist (a :: as) → bs.IsChain (· ≠ ·) →
      bs.Sublist (as.destutter' (· ≠ ·) a) := by
    intro a as
    induction as generalizing a with
    | nil => exact fun bs h _ => h
    | cons b as ih =>
      intro bs h hb
      by_cases hab : a = b
      · subst hab
        rw [List.destutter'_cons_neg as (not_not.mpr rfl)]
        refine ih a bs ?_ hb
        -- Only one of the two neighbours can be in use.
        cases h with
        | cons _ h => exact h
        | cons_cons _ h =>
          cases h with
          | cons _ h => exact h.cons_cons a
          | cons_cons _ h => exact absurd rfl (List.isChain_cons_cons.mp hb).1
      · rw [List.destutter'_cons_pos as hab]
        cases h with
        | cons _ h => exact (ih b bs h hb).cons a
        | cons_cons _ h => exact (ih b _ h hb.tail).cons_cons a
  cases as with
  | nil => exact h
  | cons a as => exact hgo a as bs h hb

/-- Two equal elements of a list without equal neighbours have another one between them. -/
theorem exists_between_of_not_nodup {as : List α} (h : as.IsChain (· ≠ ·)) (hdup : ¬as.Nodup) :
    ∃ a b, a ≠ b ∧ [a, b, a].Sublist as := by
  induction as with
  | nil => exact absurd List.nodup_nil hdup
  | cons a as ih =>
    by_cases ha : a ∈ as
    · cases as with
      | nil => cases ha
      | cons b as =>
        have hab : a ≠ b := (List.isChain_cons_cons.mp h).1
        have hmem : a ∈ as := (List.mem_cons.mp ha).resolve_left hab
        exact ⟨a, b, hab, ((List.singleton_sublist.mpr hmem).cons_cons b).cons_cons a⟩
    · have hdup' : ¬as.Nodup := fun hn => hdup (List.nodup_cons.mpr ⟨ha, hn⟩)
      obtain ⟨x, y, hxy, hsub⟩ := ih h.tail hdup'
      exact ⟨x, y, hxy, hsub.cons a⟩

/-! ## The diagnostics of a file -/

theorem diagsOf_eq (file : Nat) (ds : List Diagnostic) :
    diagsOf file ds =
      ((ds.filter (·.span.file == file)).mergeSort Diagnostic.le).destutter (· ≠ ·) :=
  dropRepeats_eq_destutter _

theorem mem_diagsOf_iff {file : Nat} {ds : List Diagnostic} {d : Diagnostic} :
    d ∈ diagsOf file ds ↔ d ∈ ds ∧ d.span.file = file := by
  constructor
  · intro h
    simpa using List.mem_mergeSort.mp (mem_of_mem_dropRepeats h)
  · rintro ⟨h, rfl⟩
    exact mem_diagsOf h

theorem pairwise_diagsOf (file : Nat) (ds : List Diagnostic) :
    (diagsOf file ds).Pairwise (·.place ≤ ·.place) := by
  rw [diagsOf_eq]
  refine List.Pairwise.sublist (List.destutter_sublist _ _) ?_
  exact (List.pairwise_mergeSort Diagnostic.trans_le Diagnostic.total_le _).imp
    Diagnostic.le_iff_place.mp

/-- Diagnostics of one place and file are listed in the order in which they were found, without
equal neighbours. -/
theorem sublist_diagsOf_iff {file : Nat} {ds bs : List Diagnostic} {d : Diagnostic}
    (hplace : ∀ b ∈ bs, b.place = d.place) (hfile : d.span.file = file)
    (hb : bs.IsChain (· ≠ ·)) : bs.Sublist (diagsOf file ds) ↔ bs.Sublist ds := by
  have hself : bs.filter (·.place = d.place) = bs :=
    List.filter_eq_self.mpr fun b hb => decide_eq_true (hplace b hb)
  rw [diagsOf_eq]
  constructor
  · intro h
    have hsorted := (h.trans (List.destutter_sublist _ _)).filter (·.place = d.place)
    rw [hself, filter_mergeSort_place] at hsorted
    exact hsorted.trans (List.filter_sublist.trans List.filter_sublist)
  · intro h
    refine sublist_destutter ?_ hb
    have hin : bs.Sublist (ds.filter (·.span.file == file)) := by
      have hown : bs.filter (·.span.file == file) = bs := by
        refine List.filter_eq_self.mpr fun b hb => beq_iff_eq.mpr ?_
        rw [(Diagnostic.place_eq_iff.mp (hplace b hb)).1, hfile]
      exact hown ▸ h.filter _
    refine List.sublist_mergeSort Diagnostic.trans_le Diagnostic.total_le ?_ hin
    refine List.pairwise_of_forall_mem_list fun a ha b hb => Diagnostic.le_iff_place.mpr ?_
    rw [hplace a ha, hplace b hb]

/-- The report of a file lists what was found in the file, sorted by place. It lists a diagnostic
twice exactly when another one of the same place was found between two equal ones. -/
theorem diags_nodup_iff (found : Findings) (source : Source) (file : Nat)
    (parsed : Except SyntaxError Syntax.Program) :
    let listed := (fileReport found source file parsed).diags
    listed.Pairwise (·.place ≤ ·.place) ∧
    (∀ d, d ∈ listed ↔ d ∈ found.diags.toList ∧ d.span.file = file) ∧
    (listed.Nodup ↔ ¬∃ a b, a ≠ b ∧ a.span = b.span ∧ a.problem.key = b.problem.key ∧
      a.span.file = file ∧ [a, b, a].Sublist found.diags.toList) := by
  intro listed
  have hsorted : listed.Pairwise (·.place ≤ ·.place) := pairwise_diagsOf file _
  refine ⟨hsorted, fun d => mem_diagsOf_iff, ?_⟩
  rw [← not_iff_not, not_not]
  constructor
  · intro hdup
    have hchain : listed.IsChain (· ≠ ·) := by
      show (diagsOf _ _).IsChain _
      rw [diagsOf_eq]
      exact List.isChain_destutter _ _
    obtain ⟨a, b, hab, hsub⟩ := exists_between_of_not_nodup hchain hdup
    have hpairs := hsorted.sublist hsub
    have hplace : a.place = b.place := by
      simp only [List.pairwise_cons, List.mem_cons, List.not_mem_nil, or_false] at hpairs
      exact le_antisymm (hpairs.1 b (.inl rfl)) (hpairs.2.1 a rfl)
    have hfile : a.span.file = file := (mem_diagsOf_iff.mp (hsub.subset List.mem_cons_self)).2
    obtain ⟨hspan, hkey⟩ := Diagnostic.place_eq_iff.mp hplace
    exact ⟨a, b, hab, hspan, hkey, hfile,
      (sublist_diagsOf_iff (by simp [hplace]) hfile (by simp [hab, hab.symm])).mp hsub⟩
  · rintro ⟨a, b, hab, hspan, hkey, hfile, hsub⟩ hnodup
    have hplace : a.place = b.place := Diagnostic.place_eq_iff.mpr ⟨hspan, hkey⟩
    have hlisted : [a, b, a].Sublist listed :=
      (sublist_diagsOf_iff (by simp [hplace]) hfile (by simp [hab, hab.symm])).mpr hsub
    have := hnodup.sublist hlisted
    simp at this

/-- A template whose combinations differ in the type of `x`, then in that of `y`. -/
def indexedParam : Source where
  path := "main.jn"
  text := "fn f[T, U](x: T, y: U) \x7b x[0] \x7d fn main() \x7b f(1, 2) f(true, 3) f(4, \"b\") \x7d"

/-- `x[0]` is refused for each combination. -/
def notIndexed (type : String) : Diagnostic := ⟨.notIndexable type, 25, 29, 0⟩

set_option maxRecDepth 100000 in
/-- The first and the third combination give the same diagnostic, and the report lists both. -/
theorem indexedParam_listed_twice : ∃ r, check {} [indexedParam] = some r ∧
    ∃ f ∈ r.files, [notIndexed "int", notIndexed "bool", notIndexed "int"].Sublist f.diags := by
  have heval : (check {} [indexedParam]).isSome = true := by decide +kernel
  have hfound : (checkCollected (setupOf {} [indexedParam]) 1
      (Package.collect ((parseAll [indexedParam]).map programOf))).any (fun r =>
        [notIndexed "int", notIndexed "bool", notIndexed "int"].isSublist
          r.2.2.findings.diags.toList) = true := by decide +kernel
  obtain ⟨r, hr⟩ := Option.isSome_iff_exists.mp heval
  obtain ⟨p, order, out, hcheck, -, -, -, hfiles⟩ := exists_table_of_check hr
  rw [show checkCollected (setupOf {} [indexedParam]) 1 _ = _ from hcheck, Option.any_some,
    List.isSublist_iff_sublist] at hfound
  obtain ⟨f, hf, hdiags⟩ := hfiles 0 Nat.one_pos
  refine ⟨r, hr, f, hf, hdiags ▸ (sublist_diagsOf_iff (d := notIndexed "int") ?_ rfl ?_).mpr hfound⟩
  · simp [Diagnostic.place_eq_iff, notIndexed, Problem.key]
  · simp [notIndexed]

end Report

end JaneCheck
