import JaneCheck.Token.Lexer
import Mathlib.Data.List.Basic

/-!
# Tokens by their own characters

How far a token reaches, and what it is, is decided by its own characters once a space or
the end of the text follows them, whatever followed them in the text that they are from
(`Decides`). Each reader looks beyond the characters that it takes, but only for what a
space is not.
-/

namespace JaneCheck

theorem exists_ok_of_bind {ε α β : Type} {x : Except ε α} {f : α → Except ε β} {b : β}
    (h : (x >>= f) = .ok b) : ∃ a, x = .ok a ∧ f a = .ok b := by
  cases x with
  | error e => cases h
  | ok a => exact ⟨a, rfl, h⟩

namespace Token

/-- At the end of the text, or before a space. -/
def Apart (more : List Char) : Prop := ∀ c ∈ more.head?, c = ' '

/-- What a reader makes of a text is what it makes of `used`, the characters that the text
begins with, when they stand apart. -/
structure Decides {α : Type} (f : List Char → α) (used cs : List Char) : Prop where
  begins : used <+: cs
  alone : ∀ {more}, Apart more → f (used ++ more) = f cs

section Decides

variable {α β : Type} {f : List Char → α} {f' : List Char → β} {used cs more : List Char}

/-- A reader that passes over the front of the text and goes on as another one does. -/
theorem Decides.after (front : List Char) (h : Decides f used cs)
    (hf : ∀ {more}, Apart more → f (used ++ more) = f cs →
      f' (front ++ (used ++ more)) = f' (front ++ cs)) :
    Decides f' (front ++ used) (front ++ cs) :=
  ⟨(List.prefix_append_right_inj _).mpr h.begins, fun hmore => by
    rw [List.append_assoc, hf hmore (h.alone hmore)]⟩

theorem head_of_begins {c : Char} (hused : used <+: cs) (hmore : Apart more)
    (h : c ∈ (used ++ more).head?) : c ∈ cs.head? ∨ c = ' ' := by
  obtain ⟨rest, rfl⟩ := hused
  cases used with
  | nil => exact .inr (hmore c h)
  | cons d used => exact .inl h

end Decides

variable {c d : Char} {cs run rest used more : List Char} {n : Nat}

/-! ## Runs of characters -/

/-- The text begins with a run of characters of a class and then leaves it. -/
structure Run (p : Char → Bool) (run rest : List Char) : Prop where
  all : ∀ c ∈ run, p c = true
  stops : ∀ c ∈ rest.head?, p c = false

section Runs

variable {p : Char → Bool}

theorem exists_run (p : Char → Bool) (cs : List Char) : ∃ run rest, cs = run ++ rest ∧
    Run p run rest := by
  refine ⟨cs.takeWhile p, cs.dropWhile p, List.takeWhile_append_dropWhile.symm, ?_, ?_⟩
  · exact fun c hc => List.all_eq_true.mp List.all_takeWhile c hc
  · intro c hc
    have hnot := List.head?_dropWhile_not p cs
    rw [Option.mem_def.mp hc] at hnot
    exact hnot

theorem Run.takeWhile (h : Run p run rest) : (run ++ rest).takeWhile p = run := by
  rw [List.takeWhile_append_of_pos h.all]
  cases rest with
  | nil => exact List.append_nil run
  | cons c rest => simp [h.stops c rfl]

theorem Run.before (h : Run p run rest) (hp : p ' ' = false) (hused : used <+: rest)
    (hmore : Apart more) : Run p run (used ++ more) := by
  refine ⟨h.all, fun c hc => ?_⟩
  rcases head_of_begins hused hmore hc with hc | rfl
  · exact h.stops c hc
  · exact hp

theorem takeWhile_decides (hp : p ' ' = false) (cs : List Char) :
    Decides (·.takeWhile p) (cs.takeWhile p) cs := by
  obtain ⟨run, rest, rfl, hrun⟩ := exists_run p cs
  rw [hrun.takeWhile]
  refine ⟨List.prefix_append _ _, fun hmore => ?_⟩
  have halone := hrun.before hp List.nil_prefix hmore
  exact halone.takeWhile.trans hrun.takeWhile.symm

end Runs

/-! ## Numbers -/

/-- The characters of the digits of a number. -/
def inDigits (base : Nat) (c : Char) : Bool := isDigitOf base c || c == '_'

theorem digitRun_eq {base : Nat} (h : Run (inDigits base) run rest) :
    digitRun base (run ++ rest) = run :=
  h.takeWhile

theorem digitRun_decides (base : Nat) (cs : List Char) :
    Decides (digitRun base) (digitRun base cs) cs :=
  takeWhile_decides (p := inDigits base) rfl cs

theorem exponentAfter_eq (h : ∀ c ∈ cs.head?, c ≠ '+' ∧ c ≠ '-') :
    exponentAfter cs = (false, digitRun 10 cs, (digitRun 10 cs).length) := by
  refine exponentAfter.eq_3 cs ?_ ?_
  · exact fun cs' he => (h '+' (by rw [he]; rfl)).1 rfl
  · exact fun cs' he => (h '-' (by rw [he]; rfl)).2 rfl

theorem exponentAfter_decides (cs : List Char) :
    ∃ used, Decides exponentAfter used cs ∧ (exponentAfter cs).2.2 = used.length := by
  fun_cases exponentAfter cs with
  | case1 cs =>
    refine ⟨_, (digitRun_decides 10 cs).after ['+'] fun _ h => ?_, Nat.add_comm ..⟩
    exact congrArg (fun run => (false, run, 1 + run.length)) h
  | case2 cs =>
    refine ⟨_, (digitRun_decides 10 cs).after ['-'] fun _ h => ?_, Nat.add_comm ..⟩
    exact congrArg (fun run => (true, run, 1 + run.length)) h
  | case3 cs hplus hminus =>
    have hrun := digitRun_decides 10 cs
    have hcs : ∀ c ∈ cs.head?, c ≠ '+' ∧ c ≠ '-' := by
      intro c hc
      obtain ⟨rest, rfl⟩ := List.head?_eq_some_iff.mp hc
      exact ⟨fun h => hplus rest (h ▸ rfl), fun h => hminus rest (h ▸ rfl)⟩
    refine ⟨_, hrun.after [] fun hmore h => ?_, rfl⟩
    have hapart : ∀ c ∈ (digitRun 10 cs ++ _).head?, c ≠ '+' ∧ c ≠ '-' := fun c hc => by
      rcases head_of_begins hrun.begins hmore hc with hc | rfl
      · exact hcs c hc
      · decide
    rw [List.nil_append, List.nil_append, exponentAfter_eq hapart, h, exponentAfter_eq hcs]

/-- What follows the fraction of a number: an exponent, or nothing of the number. -/
def exponentTail (skipped : Nat) (fraction : List Char) : List Char → Tail
  | c :: rest =>
    if c = 'e' ∨ c = 'E' then
      ⟨skipped + 1 + (exponentAfter rest).2.2, withoutUnderscores fraction,
        some ((exponentAfter rest).1, withoutUnderscores (exponentAfter rest).2.1)⟩
    else ⟨skipped, withoutUnderscores fraction, none⟩
  | [] => ⟨skipped, withoutUnderscores fraction, none⟩

theorem readTail_eq (cs : List Char) : readTail cs = match fraction? cs with
    | some run => exponentTail (1 + run.length) run (cs.drop (1 + run.length))
    | none => exponentTail 0 [] cs := by
  unfold readTail
  cases fraction? cs <;> rfl

theorem exponentTail_decides (skipped : Nat) (fraction cs : List Char) :
    ∃ used, Decides (exponentTail skipped fraction) used cs ∧
      (exponentTail skipped fraction cs).length = skipped + used.length := by
  have hnone {more : List Char} (hmore : Apart more) :
      exponentTail skipped fraction more = ⟨skipped, withoutUnderscores fraction, none⟩ := by
    cases more with
    | nil => rfl
    | cons c more =>
      cases hmore c rfl
      rfl
  fun_cases exponentTail skipped fraction cs with
  | case1 c rest he =>
    obtain ⟨used, hused, hlength⟩ := exponentAfter_decides rest
    refine ⟨_, hused.after [c] fun _ h => ?_, ?_⟩
    · simp only [List.cons_append, List.nil_append, exponentTail, if_pos he, h]
    · rw [hlength, List.length_append, List.length_singleton, Nat.add_assoc]
  | case2 c rest he =>
    exact ⟨[], ⟨List.nil_prefix, fun hmore => (hnone hmore).trans (if_neg he).symm⟩, rfl⟩
  | case3 => exact ⟨[], ⟨List.nil_prefix, hnone⟩, rfl⟩

theorem fraction_eq (hd : isDecimal d = true) (h : Run (inDigits 10) (d :: run) rest) :
    fraction? ('.' :: (d :: run ++ rest)) = some (d :: run) := by
  have hrun : digitRun 10 (d :: (run ++ rest)) = d :: run := digitRun_eq h
  simp only [List.cons_append, fraction?, if_pos hd, hrun]

theorem fraction_eq_none (h : ∀ c ∈ cs.head?, c ≠ '.') : fraction? cs = none := by
  fun_cases fraction? cs with
  | case1 c cs _ | case2 c cs _ => exact absurd rfl (h '.' rfl)
  | case3 => rfl

theorem isDigitOf_ten (h : isDecimal c = true) : isDigitOf 10 c = true := by
  have hdigit : 48 ≤ c.val ∧ c.val ≤ 57 := by simpa [isDecimal, Char.isDigit] using h
  replace hdigit : '0' ≤ c ∧ c ≤ '9' := hdigit
  have hvalue : Decimal.digitValue c < 10 := by
    have hle : c.toNat ≤ 57 := hdigit.2
    rw [Decimal.digitValue, if_pos hdigit]
    show c.toNat - 48 < 10
    omega
  have hhex : isHexadecimal c = true := by
    rw [isHexadecimal, show c.isDigit = true from h]
    rfl
  rw [isDigitOf, hhex, decide_eq_true hvalue]
  rfl

theorem exists_of_fraction (h : fraction? cs = some run) :
    ∃ d digits rest, cs = '.' :: (d :: digits ++ rest) ∧ isDecimal d = true ∧
      Run (inDigits 10) (d :: digits) rest := by
  unfold fraction? at h
  split at h
  next d cs =>
    split at h
    next hd =>
      obtain ⟨digits, rest, rfl, hrun⟩ := exists_run (inDigits 10) cs
      refine ⟨d, digits, rest, rfl, hd, List.forall_mem_cons.mpr ⟨?_, hrun.all⟩, hrun.stops⟩
      rw [inDigits, isDigitOf_ten hd]
      rfl
    next => cases h
  next => cases h

theorem readTail_decides (cs : List Char) :
    ∃ used, Decides readTail used cs ∧ (readTail cs).length = used.length := by
  cases hfraction : fraction? cs with
  | none =>
    obtain ⟨used, hused, hlength⟩ := exponentTail_decides 0 [] cs
    rw [Nat.zero_add] at hlength
    have htail : readTail cs = exponentTail 0 [] cs := by rw [readTail_eq, hfraction]
    -- A point that is no fraction is not taken.
    have hhead : ∀ c ∈ used.head?, c ≠ '.' := by
      rintro _ hc rfl
      obtain ⟨tail, rfl⟩ := List.head?_eq_some_iff.mp hc
      obtain ⟨rest, rfl⟩ := hused.begins
      cases hlength
    refine ⟨used, ⟨hused.begins, fun {more} hmore => ?_⟩, htail ▸ hlength⟩
    have hnone : fraction? (used ++ more) = none := fraction_eq_none fun c hc => by
      rcases head_of_begins (List.prefix_refl used) hmore hc with hc | rfl
      · exact hhead c hc
      · decide
    rw [htail, readTail_eq, hnone]
    exact hused.alone hmore
  | some run =>
    obtain ⟨d, run, rest, rfl, hd, hrun⟩ := exists_of_fraction hfraction
    have htail : ∀ {rest}, Run (inDigits 10) (d :: run) rest →
        readTail ('.' :: (d :: run ++ rest)) =
          exponentTail (1 + (d :: run).length) (d :: run) rest := by
      intro rest h
      have hdrop : ('.' :: (d :: run ++ rest)).drop (1 + (d :: run).length) = rest := by
        rw [Nat.add_comm, List.drop_succ_cons, List.drop_left]
      rw [readTail_eq, fraction_eq hd h]
      exact congrArg (exponentTail _ _) hdrop
    obtain ⟨used, hused, hlength⟩ :=
      exponentTail_decides (1 + (d :: run).length) (d :: run) rest
    refine ⟨_, hused.after ('.' :: d :: run) fun hmore h => ?_, ?_⟩
    · exact (htail (hrun.before rfl hused.begins hmore)).trans (h.trans (htail hrun).symm)
    · rw [htail hrun, hlength]
      simp only [List.length_append, List.length_cons]
      omega

theorem readDecimal_eq (h : Run (inDigits 10) run rest) :
    readDecimal c (run ++ rest) =
      (if (readTail rest).length == 0 then wholeKind (withoutUnderscores (c :: run))
        else .float (floatValue (withoutUnderscores (c :: run)) (readTail rest)),
        run.length + (readTail rest).length) := by
  unfold readDecimal
  simp only [digitRun_eq h, List.drop_left]

theorem readDecimal_decides (c : Char) (cs : List Char) :
    ∃ used, Decides (readDecimal c) used cs ∧ (readDecimal c cs).2 = used.length := by
  obtain ⟨run, rest, rfl, hrun⟩ := exists_run (inDigits 10) cs
  obtain ⟨used, hused, hlength⟩ := readTail_decides rest
  refine ⟨_, hused.after run fun hmore h => ?_, ?_⟩
  · rw [readDecimal_eq (hrun.before rfl hused.begins hmore), h, readDecimal_eq hrun]
  · rw [readDecimal_eq hrun, hlength, List.length_append]

theorem readNumber_eq (h : ∀ d ∈ cs.head?, (if c = '0' then base? d else none) = none) :
    readNumber c cs = readDecimal c cs := by
  cases cs with
  | nil => rfl
  | cons d cs => simp only [readNumber, h d rfl]

theorem readNumber_based {base : Nat} (h : (if c = '0' then base? d else none) = some base)
    (cs : List Char) : readNumber c (d :: cs) =
      (.int (basedValue base (withoutUnderscores (digitRun base cs))),
        1 + (digitRun base cs).length) := by
  simp only [readNumber, h]

/-- A number is decimal, or a letter after a leading zero announces its base. -/
theorem exists_base (c : Char) (cs : List Char) :
    (∀ d ∈ cs.head?, (if c = '0' then base? d else none) = none) ∨
      ∃ d cs' base, cs = d :: cs' ∧ (if c = '0' then base? d else none) = some base := by
  cases cs with
  | nil => exact .inl nofun
  | cons d cs =>
    cases hbase : if c = '0' then base? d else none with
    | none => exact .inl (by rintro _ ⟨⟩; exact hbase)
    | some base => exact .inr ⟨d, cs, base, rfl, hbase⟩

theorem readNumber_decides (c : Char) (cs : List Char) :
    ∃ used, Decides (readNumber c) used cs ∧ (readNumber c cs).2 = used.length := by
  rcases exists_base c cs with hnone | ⟨d, cs, base, rfl, hbase⟩
  · obtain ⟨used, hused, hlength⟩ := readDecimal_decides c cs
    refine ⟨used, ⟨hused.begins, fun hmore => ?_⟩, by rw [readNumber_eq hnone, hlength]⟩
    rw [readNumber_eq hnone, readNumber_eq, hused.alone hmore]
    intro d hd
    rcases head_of_begins hused.begins hmore hd with hd | rfl
    · exact hnone d hd
    · split <;> rfl
  · refine ⟨_, (digitRun_decides base cs).after [d] fun _ h => ?_, ?_⟩
    · simp only [List.cons_append, List.nil_append, readNumber_based hbase, h]
    · rw [readNumber_based hbase]
      exact Nat.add_comm ..

/-! ## Texts, runes and symbols -/

theorem readText_cons (hquote : c ≠ '"') (hslash : c ≠ '\\') (hline : c ≠ '\n') (m : Nat) :
    readText (c :: cs) m = (do
      let (value, length) ← readText cs (m + 1)
      return (c :: value, length)) := by
  rw [readText]
  all_goals simp_all

theorem readText_decides {value : List Char} {m : Nat} (h : readText cs m = .ok (value, n)) :
    ∃ used, Decides (readText · m) used cs ∧ n = m + used.length := by
  fun_induction readText cs m generalizing value with
  | case1 | case4 | case5 => cases h
  | case2 cs m =>
    cases h
    exact ⟨['"'], ⟨⟨cs, rfl⟩, fun _ => rfl⟩, rfl⟩
  | case3 c cs m ih =>
    obtain ⟨⟨rest, k⟩, hread, hk⟩ := exists_ok_of_bind h
    cases hk
    obtain ⟨used, hused, rfl⟩ := ih hread
    refine ⟨_, hused.after ['\\', c] fun _ h => ?_, ?_⟩
    · exact congrArg (· >>= _) h
    · rw [List.length_append, ← Nat.add_assoc]
      rfl
  | case6 c cs m hquote hslash hlast hline ih =>
    obtain ⟨⟨rest, k⟩, hread, hk⟩ := exists_ok_of_bind h
    cases hk
    obtain ⟨used, hused, rfl⟩ := ih hread
    have hc : c ≠ '\\' := fun he => by
      cases cs with
      | nil => exact hlast he rfl
      | cons d cs => exact hslash d cs he rfl
    have hread := fun cs => @readText_cons c cs hquote hc hline m
    refine ⟨_, hused.after [c] fun _ h => ?_, ?_⟩
    · exact (hread _).trans ((congrArg (· >>= _) h).trans (hread cs).symm)
    · rw [List.length_append, ← Nat.add_assoc]
      rfl

theorem readRune_decides {value : Char} (h : readRune cs = .ok (value, n)) :
    ∃ used, Decides readRune used cs ∧ n = used.length := by
  unfold readRune at h
  split at h
  all_goals cases h
  next c rest => exact ⟨['\\', c, '\''], ⟨⟨rest, rfl⟩, fun _ => rfl⟩, rfl⟩
  next rest _ _ _ _ =>
    refine ⟨[value, '\''], ⟨⟨rest, rfl⟩, fun _ => ?_⟩, rfl⟩
    unfold readRune
    split <;> simp_all

theorem space_not_mem_symbol : ∀ entry ∈ Symbol.table, entry.1 ≠ [] ∧ ' ' ∉ entry.1 := by decide

theorem symbol_decides {chars : List Char} {sym : Symbol}
    (h : Symbol.read? cs = some (chars, sym)) : Decides Symbol.read? chars cs := by
  obtain ⟨hbegins, before, after, htable, hbefore⟩ := List.find?_eq_some_iff_append.mp h
  have hchars : chars <+: cs := List.isPrefixOf_iff_prefix.mp hbegins
  refine ⟨hchars, fun hmore => ?_⟩
  rw [h]
  refine List.find?_eq_some_iff_append.mpr ⟨?_, before, after, htable, fun entry hentry => ?_⟩
  · exact List.isPrefixOf_iff_prefix.mpr (List.prefix_append _ _)
  have hmiss : ¬entry.1 <+: cs := by
    simpa [← List.isPrefixOf_iff_prefix] using hbefore entry hentry
  rw [Bool.not_eq_true', Bool.eq_false_iff, Ne, List.isPrefixOf_iff_prefix]
  intro hfound
  -- An earlier symbol of the table is longer, and the space would be in it.
  rcases Nat.le_total entry.1.length chars.length with hle | hle
  · exact hmiss ((List.prefix_of_prefix_length_le hfound (List.prefix_append _ _) hle).trans hchars)
  · obtain ⟨tail, htail⟩ := List.prefix_of_prefix_length_le (List.prefix_append _ _) hfound hle
    rw [← htail, List.prefix_append_right_inj] at hfound
    cases tail with
    | nil =>
      rw [List.append_nil] at htail
      exact hmiss (htail ▸ hchars)
    | cons d tail =>
      obtain ⟨_, rfl⟩ := hfound
      cases hmore d rfl
      have hspace := (space_not_mem_symbol entry (htable ▸ List.mem_append_left _ hentry)).2
      exact hspace (htail ▸ by simp)

/-! ## Tokens -/

theorem wordKind_ne_eof (word : String) : wordKind word ≠ .eof := by
  unfold wordKind
  split <;> exact Kind.noConfusion

theorem readNumber_ne_eof (c : Char) (cs : List Char) : (readNumber c cs).1 ≠ .eof := by
  have hdecimal : ∀ cs, (readDecimal c cs).1 ≠ .eof := by
    intro cs
    unfold readDecimal wholeKind
    grind
  unfold readNumber
  split
  · exact hdecimal []
  · split
    · exact Kind.noConfusion
    · exact hdecimal _

/-- A token is decided by its own characters, and is not the end. -/
theorem readOne_decides {kind : Kind} (h : readOne c cs = .ok (kind, n)) :
    kind ≠ .eof ∧ ∃ used, Decides (readOne c) used cs ∧ n = used.length := by
  unfold readOne at h
  split at h
  next hname =>
    cases h
    refine ⟨wordKind_ne_eof _, _, (takeWhile_decides rfl cs).after [] fun _ h => ?_, rfl⟩
    simp only [List.nil_append, readOne, if_pos hname, h]
  next hname =>
  split at h
  next hdigit =>
    obtain ⟨used, hused, hlength⟩ := readNumber_decides c cs
    have hkind := readNumber_ne_eof c cs
    rw [Except.ok.inj h] at hlength hkind
    refine ⟨hkind, used, hused.after [] fun _ h => ?_, hlength⟩
    simp only [List.nil_append, readOne, if_neg hname, if_pos hdigit, h]
  next hdigit =>
  split at h
  next hquote =>
    obtain ⟨⟨value, k⟩, hread, hk⟩ := exists_ok_of_bind h
    cases hk
    obtain ⟨used, hused, hlength⟩ := readText_decides hread
    refine ⟨Kind.noConfusion, used, hused.after [] fun _ h => ?_, by omega⟩
    simp only [List.nil_append, readOne, if_neg hname, if_neg hdigit, if_pos hquote, h]
  next hquote =>
  split at h
  next hrune =>
    obtain ⟨⟨value, k⟩, hread, hk⟩ := exists_ok_of_bind h
    cases hk
    obtain ⟨used, hused, hlength⟩ := readRune_decides hread
    refine ⟨Kind.noConfusion, used, hused.after [] fun _ h => ?_, hlength⟩
    simp only [List.nil_append, readOne, if_neg hname, if_neg hdigit, if_neg hquote,
      if_pos hrune, h]
  next hrune =>
  split at h
  next chars sym hsym =>
    cases h
    have hdecides := symbol_decides hsym
    have hne := (space_not_mem_symbol _ (List.mem_of_find?_eq_some hsym)).1
    obtain ⟨d, tail, rfl⟩ := List.exists_cons_of_ne_nil hne
    obtain ⟨rfl, htail⟩ := List.cons_prefix_cons.mp hdecides.begins
    refine ⟨Kind.noConfusion, tail, ⟨htail, fun {more} hmore => ?_⟩, rfl⟩
    have halone : Symbol.read? (d :: (tail ++ more)) = Symbol.read? (d :: cs) :=
      hdecides.alone hmore
    simp only [readOne, if_neg hname, if_neg hdigit, if_neg hquote, if_neg hrune, halone]
  · cases h

end Token

end JaneCheck
