import JaneCheck.Source.Lines
import Mathlib.Data.List.DropRight
import Mathlib.Data.List.TakeWhile
import Mathlib.Data.Prod.Lex

/-!
# Rows and columns are exact

The row of an offset counts the line feeds before it and the column the characters since the
last of them (`position_exact`), so later offsets have later positions. A binary search for the
offset among the line starts finds the same row (`Searched`), since the line starts increase
and the first of them is 0.
-/

namespace JaneCheck.Lines

/-- What a binary search for `x` in increasing numbers answers: the place of `x`, or the place
where it belongs. -/
inductive Searched (xs : List Nat) (x : Nat) : Except Nat Nat → Prop
  | found {i : Nat} (h : xs[i]? = some x) : Searched xs x (.ok i)
  | missing {i : Nat} (hbefore : ∀ y ∈ xs.take i, y < x) (hafter : ∀ y ∈ xs.drop i, x < y)
      (hi : i ≤ xs.length) : Searched xs x (.error i)

/-- The line of an answer: where the offset belongs, the line before starts last. Before the
first line there is none. -/
def line? : Except Nat Nat → Option Nat
  | .ok i => some i
  | .error 0 => none
  | .error (i + 1) => some i

/-! ## Line starts -/

variable {cs : List Char} {i offset : Nat} {l : Lines}

theorem startsAfter_append (i : Nat) (cs ds : List Char) :
    startsAfter i (cs ++ ds) = startsAfter i cs ++ startsAfter (i + cs.length) ds := by
  induction cs generalizing i with
  | nil => rfl
  | cons c cs ih =>
    rw [List.cons_append, startsAfter, startsAfter, ih, List.length_cons,
      show i + (cs.length + 1) = i + 1 + cs.length by omega]
    split <;> rfl

theorem mem_startsAfter {n : Nat} (h : n ∈ startsAfter i cs) : i < n ∧ n ≤ i + cs.length := by
  induction cs generalizing i with
  | nil => cases h
  | cons c cs ih =>
    rw [startsAfter] at h
    rw [List.length_cons]
    split at h
    · rcases List.mem_cons.mp h with rfl | h
      · omega
      · have := ih h
        omega
    · have := ih h
      omega

theorem pairwise_startsAfter (i : Nat) (cs : List Char) : (startsAfter i cs).Pairwise (· < ·) := by
  induction cs generalizing i with
  | nil => exact .nil
  | cons c cs ih =>
    rw [startsAfter]
    split
    · exact .cons (fun n hn => (mem_startsAfter hn).1) (ih _)
    · exact ih _

theorem pairwise_starts (text : String) : (ofText text).starts.Pairwise (· < ·) :=
  .cons (fun _ hn => (mem_startsAfter hn).1) (pairwise_startsAfter 0 _)

theorem length_startsAfter (i : Nat) (cs : List Char) :
    (startsAfter i cs).length = cs.count '\n' := by
  induction cs generalizing i with
  | nil => rfl
  | cons c cs ih =>
    rw [startsAfter, List.count_cons]
    split <;> simp [*]

theorem last_start (cs : List Char) :
    (startsAfter 0 cs).getLastD 0 + (cs.rtakeWhile (· ≠ '\n')).length = cs.length := by
  induction cs using List.reverseRecOn with
  | nil => rfl
  | append_singleton cs c ih =>
    rw [startsAfter_append, List.length_append]
    by_cases hc : c = '\n'
    · simp [startsAfter, hc]
    · simp [startsAfter, hc, ← Nat.add_assoc, ← ih]

/-! ## Positions -/

/-- The starts of the lines that begin at or before an offset. -/
def passed (l : Lines) (offset : Nat) : List Nat := l.starts.takeWhile (· ≤ offset)

theorem position_eq (l : Lines) (offset : Nat) : l.position offset =
    ((l.passed offset).length, offset - (l.passed offset).getLastD 0 + 1) := rfl

theorem takeWhile_le {xs ys : List Nat} {x : Nat} (hxs : ∀ y ∈ xs, y ≤ x) (hys : ∀ y ∈ ys, x < y) :
    (xs ++ ys).takeWhile (· ≤ x) = xs := by
  rw [List.takeWhile_append_of_pos (by simpa using hxs)]
  cases ys with
  | nil => simp
  | cons y ys => simp [hys y List.mem_cons_self]

theorem getLastD_passed_le (l : Lines) (offset : Nat) : (l.passed offset).getLastD 0 ≤ offset := by
  rw [List.getLastD_eq_getLast?]
  cases h : (l.passed offset).getLast? with
  | none => exact Nat.zero_le _
  | some n => simpa using List.mem_takeWhile_imp (List.mem_of_getLast? h)

theorem passed_ofText {text : String} (h : offset ≤ text.length) :
    (ofText text).passed offset = 0 :: startsAfter 0 (text.toList.take offset) := by
  have hlength : (text.toList.take offset).length = offset := by
    rw [List.length_take, String.length_toList, Nat.min_eq_left h]
  unfold passed ofText
  rw [← List.take_append_drop offset text.toList, startsAfter_append, ← List.cons_append,
    takeWhile_le, List.take_append_drop]
  · intro n hn
    rcases List.mem_cons.mp hn with rfl | hn
    · exact Nat.zero_le _
    · have := mem_startsAfter hn
      omega
  · intro n hn
    have := mem_startsAfter hn
    omega

/-- Later offsets have later positions. -/
theorem strictMono_position (l : Lines) : StrictMono fun offset => toLex (l.position offset) := by
  intro a b hab
  have hboth : l.passed a = (l.passed b).takeWhile (· ≤ a) := by
    rw [passed, passed, List.takeWhile_takeWhile]
    congr
    ext n
    simp
    omega
  have hpassed : l.passed a <+: l.passed b := hboth ▸ List.takeWhile_prefix _
  rw [Prod.Lex.toLex_lt_toLex, position_eq, position_eq]
  rcases hpassed.length_le.lt_or_eq with hlt | heq
  · exact .inl hlt
  · have hsame := hpassed.eq_of_length heq
    have := getLastD_passed_le l a
    exact .inr ⟨heq, by rw [← hsame]; omega⟩

/-- What is passed ends with the line that a search finds. -/
theorem passed_of_searched (hsorted : l.starts.Pairwise (· < ·)) (hfirst : l.starts.head? = some 0)
    {answer : Except Nat Nat} (h : Searched l.starts offset answer) :
    ∃ row, line? answer = some row ∧ row < l.starts.length ∧
      l.passed offset = l.starts.take (row + 1) := by
  have htake : ∀ n, (∀ y ∈ l.starts.take n, y ≤ offset) → (∀ y ∈ l.starts.drop n, offset < y) →
      l.passed offset = l.starts.take n := by
    intro n hbefore hafter
    rw [passed]
    nth_rewrite 1 [← List.take_append_drop n l.starts]
    exact takeWhile_le hbefore hafter
  cases h with
  | @found i h =>
    obtain ⟨hi, rfl⟩ := List.getElem?_eq_some_iff.mp h
    rw [List.pairwise_iff_getElem] at hsorted
    refine ⟨i, rfl, hi, htake (i + 1) (fun y hy => ?_) fun y hy => ?_⟩
    · obtain ⟨j, hj, rfl⟩ := List.mem_take_iff_getElem.mp hy
      rcases Nat.lt_or_ge j i with hji | hij
      · exact (hsorted _ _ _ _ hji).le
      · obtain rfl : j = i := by omega
        exact le_rfl
    · obtain ⟨j, hj, rfl⟩ := List.mem_drop_iff_getElem.mp hy
      exact hsorted _ _ _ _ (by omega)
  | @missing i hbefore hafter hi =>
    cases i with
    | zero =>
      -- The first line starts at 0, and no offset is before it.
      have := hafter 0 (List.mem_of_mem_head? hfirst)
      omega
    | succ i => exact ⟨i, rfl, hi, htake (i + 1) (fun y hy => (hbefore y hy).le) hafter⟩

/-- The position of an offset: its row is one more than the line feeds before it, and its
column one more than the characters since the last of those. A search gives this row, with a
line that has begun. No two offsets share a position, and later ones have later positions. -/
theorem position_exact (text : String) (offset : Nat) (h : offset ≤ text.length) :
    let l := ofText text
    let before := text.toList.take offset
    l.position offset = (1 + before.count '\n', 1 + (before.rtakeWhile (· ≠ '\n')).length) ∧
      l.starts.Pairwise (· < ·) ∧
      (∀ answer, Searched l.starts offset answer → ∃ row start, line? answer = some row ∧
        l.starts[row]? = some start ∧ start ≤ offset ∧
        l.position offset = (row + 1, offset - start + 1)) ∧
      Function.Injective l.position ∧ StrictMono fun offset => toLex (l.position offset) := by
  intro l before
  refine ⟨?_, pairwise_starts text, fun answer hanswer => ?_,
    fun a b heq => (strictMono_position l).injective (congrArg toLex heq), strictMono_position l⟩
  · have hpassed : l.passed offset = 0 :: startsAfter 0 before := passed_ofText h
    have hlast := last_start before
    rw [List.length_take, String.length_toList, Nat.min_eq_left h] at hlast
    rw [position_eq, hpassed, List.length_cons, length_startsAfter, List.getLastD_cons,
      Prod.mk.injEq]
    omega
  · obtain ⟨row, hline, hrow, hpassed⟩ := passed_of_searched (pairwise_starts text) rfl hanswer
    have hbegun := getLastD_passed_le l offset
    rw [position_eq]
    rw [hpassed, List.take_succ_eq_append_getElem hrow, List.getLastD_concat] at hbegun ⊢
    refine ⟨row, l.starts[row], hline, List.getElem?_eq_getElem hrow, hbegun, ?_⟩
    rw [List.length_append, List.length_take, Nat.min_eq_left hrow.le]
    rfl

/-- At the end of a text that ends with a line feed, behind an empty line. -/
theorem position_exact_last_line :
    let l := ofText "a\n\n"
    3 ≤ "a\n\n".length ∧ l.position 3 = (3, 1) ∧ Searched l.starts 3 (.ok 2) ∧
      ∃ row start, line? (.ok 2) = some row ∧ l.starts[row]? = some start ∧ start ≤ 3 := by
  intro l
  have h : 3 ≤ "a\n\n".length := by decide
  have hanswer : Searched l.starts 3 (.ok 2) := .found rfl
  obtain ⟨hposition, -, hsearch, -, -⟩ := position_exact "a\n\n" 3 h
  obtain ⟨row, start, hline, hstart, hle, -⟩ := hsearch _ hanswer
  exact ⟨h, hposition.trans (by decide), hanswer, row, start, hline, hstart, hle⟩

end JaneCheck.Lines
