import JaneCheck.Proofs.Spacing
import Mathlib.Data.Nat.Digits.Defs

/-!
# Integers and their digits

A whole number of the text is spelled in base ten, or behind a zero and a letter in the
base of the letter, with underscores among its digits (`Spelled`). The token has the number
that the digits denote. Base ten leaves the integers where that number is too large; in the
other bases such a number, and one without a digit, is the greatest integer instead
(`Denotes`).
-/

namespace JaneCheck.Token

/-- Characters of a whole number, with its base and its digits. -/
inductive Spelled : List Char → Nat → List Char → Prop
  | decimal {c : Char} {run : List Char} (hc : isDecimal c = true)
      (hrun : ∀ d ∈ run, inDigits 10 d = true) :
      Spelled (c :: run) 10 (withoutUnderscores (c :: run))
  | based {letter : Char} {base : Nat} {run : List Char} (hbase : base? letter = some base)
      (hrun : ∀ d ∈ run, inDigits base d = true) :
      Spelled ('0' :: letter :: run) base (withoutUnderscores run)

/-- The number of the digits, the first of which counts most. -/
def denoted (base : Nat) (digits : List Char) : Nat :=
  Nat.ofDigits base (digits.reverse.map Decimal.digitValue)

/-- The integer is the number of the digits, or the greatest one where there is no such number. -/
structure Denotes (base : Nat) (digits : List Char) (v : UInt64) : Prop where
  exact : digits ≠ [] → denoted base digits < 2 ^ 64 → v.toNat = denoted base digits
  greatest : digits = [] ∨ 2 ^ 64 ≤ denoted base digits → base ≠ 10 ∧ v.toNat = 2 ^ 64 - 1

variable {c : Char} {cs digits : List Char} {base n : Nat} {v : UInt64}

theorem ofDigits_eq (base acc : Nat) (values : List Nat) :
    Decimal.ofDigits base acc values = Nat.ofDigits base (values.reverse ++ [acc]) := by
  induction values generalizing acc with
  | nil => simp [Decimal.ofDigits]
  | cons d ds ih =>
    rw [Decimal.ofDigits, ih, List.reverse_cons, List.append_assoc, Nat.ofDigits_append,
      Nat.ofDigits_append]
    simp only [List.cons_append, List.nil_append, Nat.ofDigits_cons, Nat.ofDigits_nil]
    ring

theorem ofText_eq (base : Nat) (digits : List Char) :
    Decimal.ofText base digits = denoted base digits := by
  rw [Decimal.ofText, ofDigits_eq, Nat.ofDigits_append, denoted, List.map_reverse]
  simp

theorem denotes_of_wholeKind (hne : digits ≠ []) (h : wholeKind digits = .int v) :
    Denotes 10 digits v := by
  simp only [wholeKind, ofText_eq] at h
  split at h
  next hlt =>
    cases h
    refine ⟨fun _ _ => Nat.mod_eq_of_lt hlt, ?_⟩
    rintro (rfl | hle)
    · exact absurd rfl hne
    · exact absurd hlt (Nat.not_lt.mpr hle)
  next => cases h

theorem denotes_basedValue (hbase : base ≠ 10) (digits : List Char) :
    Denotes base digits (basedValue base digits) := by
  simp only [basedValue, ofText_eq, Bool.or_eq_true, List.isEmpty_iff, decide_eq_true_eq]
  split
  next hout =>
    refine ⟨fun hne hlt => ?_, fun _ => ⟨hbase, rfl⟩⟩
    rcases hout with hnil | hle
    · exact absurd hnil hne
    · exact absurd hlt (Nat.not_lt.mpr hle)
  next hin => exact ⟨fun _ hlt => Nat.mod_eq_of_lt hlt, fun hout => absurd hout hin⟩

theorem spelled_of_readNumber (hc : isDecimal c = true) (h : readNumber c cs = (.int v, n)) :
    ∃ base digits, Spelled (c :: cs.take n) base digits ∧ Denotes base digits v := by
  rcases exists_base c cs with hnone | ⟨letter, cs, base, rfl, hbase⟩
  · obtain ⟨run, rest, rfl, hrun⟩ := exists_run (inDigits 10) cs
    rw [readNumber_eq hnone, readDecimal_eq hrun] at h
    obtain ⟨hkind, hn⟩ := Prod.mk.inj h
    split at hkind
    next htail =>
      rw [beq_iff_eq] at htail
      rw [htail] at hn
      cases hn
      rw [Nat.add_zero, List.take_left]
      refine ⟨10, _, .decimal hc hrun.all, denotes_of_wholeKind (fun hnil => ?_) hkind⟩
      have hall := List.filter_eq_nil_iff.mp hnil c List.mem_cons_self
      rw [bne_iff_ne, not_not] at hall
      subst hall
      cases hc
    next => cases hkind
  · obtain ⟨run, rest, rfl, hrun⟩ := exists_run (inDigits base) cs
    rw [readNumber_based hbase, digitRun_eq hrun] at h
    cases h
    rw [Nat.add_comm, List.take_succ_cons, List.take_left]
    split at hbase
    next hzero =>
      subst hzero
      refine ⟨base, _, .based hbase hrun.all, denotes_basedValue (fun hten => ?_) _⟩
      subst hten
      unfold base? at hbase
      split at hbase <;> cases hbase
    next => cases hbase

theorem number_of_readOne (h : readOne c cs = .ok (.int v, n)) :
    isDecimal c = true ∧ readNumber c cs = (.int v, n) := by
  unfold readOne wordKind at h
  split at h
  · grind
  split at h
  next hdigit => exact ⟨hdigit, Except.ok.inj h⟩
  split at h
  · obtain ⟨_, -, hk⟩ := exists_ok_of_bind h
    cases hk
  split at h
  · obtain ⟨_, -, hk⟩ := exists_ok_of_bind h
    cases hk
  · grind

/-- Integers are the numbers of their digits, but for a based one that is too large or has no
digit: it is the greatest integer. -/
theorem ints_denote_digits {file : Nat} {text : String} {tokens : List Token} {t : Token}
    (h : readAll file text = .ok tokens) (ht : t ∈ tokens) (hv : t.kind = .int v) :
    ∃ base digits, Spelled (source text.toList t) base digits ∧ Denotes base digits v := by
  obtain ⟨body, j, rfl, hbody⟩ := readAt_of_readFrom (Nat.zero_le _) List.drop_zero h
  rcases List.mem_append.mp ht with ht | ht
  · obtain ⟨c, used, rest, hat⟩ := hbody t ht
    have hread := hat.read
    rw [hv] at hread
    obtain ⟨hc, hnumber⟩ := number_of_readOne hread
    have hspelled := spelled_of_readNumber hc hnumber
    rwa [List.take_left, ← hat.source] at hspelled
  · cases List.mem_singleton.mp ht
    cases hv

theorem ints_denote_digits_grouped :
    let t : Token := ⟨.int 255, ⟨0, 5, 0⟩⟩
    readAll 0 "0xF_f" = .ok [t, ⟨.eof, ⟨5, 5, 0⟩⟩] ∧
      ∃ base digits, Spelled (source "0xF_f".toList t) base digits ∧ Denotes base digits 255 := by
  intro t
  have h : readAll 0 "0xF_f" = .ok [t, ⟨.eof, ⟨5, 5, 0⟩⟩] := by with_unfolding_all rfl
  exact ⟨h, ints_denote_digits h List.mem_cons_self rfl⟩

/-- One above the greatest integer, which has the digits of another number, and no digit at
all. -/
theorem greatest_int_off_digits :
    let t (n : Nat) : Token := ⟨.int 18446744073709551615, ⟨0, n, 0⟩⟩
    let digits := '1' :: List.replicate 16 '0'
    readAll 0 "0x10000000000000000" = .ok [t 19, ⟨.eof, ⟨19, 19, 0⟩⟩] ∧
      Spelled (source "0x10000000000000000".toList (t 19)) 16 digits ∧
      denoted 16 digits = 18446744073709551616 ∧
      readAll 0 "0x" = .ok [t 2, ⟨.eof, ⟨2, 2, 0⟩⟩] := by
  refine ⟨by with_unfolding_all rfl, ?_, by decide, by with_unfolding_all rfl⟩
  exact @Spelled.based 'x' 16 ('1' :: List.replicate 16 '0') rfl (List.all_eq_true.mp rfl)

end JaneCheck.Token
