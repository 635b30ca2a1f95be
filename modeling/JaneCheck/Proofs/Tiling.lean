import JaneCheck.Proofs.Lexemes

/-!
# The tokens of a text tile it

`Tiles file text i tokens` says how tokens lie in a text from the offset `i` on:
one after the other, with nothing but blanks and comments before each of them,
and with the end of the text as the last. A gap is told apart from what follows
it (`Filler`), because a line comment only stops where its line does.
-/

namespace JaneCheck.Token

/-! ## Gaps -/

/-- A text that begins with a mark that opens or closes a block comment. -/
def AtMark : List Char → Prop
  | '/' :: '*' :: _ => True
  | '*' :: '/' :: _ => True
  | _ => False

/-- A text from behind the opening mark of a block comment to the end of the mark
that closes it. Comments inside close before it does. -/
inductive CommentBody : List Char → Prop
  | close : CommentBody ['*', '/']
  | plain {c : Char} {cs : List Char} (h : ¬AtMark (c :: cs)) (hs : CommentBody cs) :
      CommentBody (c :: cs)
  | nested {inner outer : List Char} (hi : CommentBody inner) (ho : CommentBody outer) :
      CommentBody ('/' :: '*' :: (inner ++ outer))

/-- A text of blanks and whole comments before `rest`. -/
inductive Filler (rest : List Char) : List Char → Prop
  | nil : Filler rest []
  | blank {c : Char} {cs : List Char} (h : isBlank c = true) (hs : Filler rest cs) :
      Filler rest (c :: cs)
  | lineComment {body cs : List Char} (hbody : '\n' ∉ body)
      (hend : ∀ c ∈ (cs ++ rest).head?, c = '\n') (hs : Filler rest cs) :
      Filler rest ('/' :: '/' :: (body ++ cs))
  | blockComment {body cs : List Char} (hbody : CommentBody body) (hs : Filler rest cs) :
      Filler rest ('/' :: '*' :: (body ++ cs))

/-- What is skipped from inside a gap: the rest of a line comment, or the rest of
each block comment that is open, and then a gap. -/
inductive Skipped (rest : List Char) : Gap → List Char → Prop
  | blank {cs : List Char} (h : Filler rest cs) : Skipped rest .blank cs
  | lineComment {body cs : List Char} (hbody : '\n' ∉ body)
      (hend : ∀ c ∈ (cs ++ rest).head?, c = '\n') (hs : Filler rest cs) :
      Skipped rest .lineComment (body ++ cs)
  | lastComment {body cs : List Char} {opened : Nat} (hbody : CommentBody body)
      (hs : Filler rest cs) : Skipped rest (.blockComment 0 opened) (body ++ cs)
  | innerComment {body cs : List Char} {depth opened : Nat} (hbody : CommentBody body)
      (hs : Skipped rest (.blockComment depth opened) cs) :
      Skipped rest (.blockComment (depth + 1) opened) (body ++ cs)

variable {cs rest : List Char} {c : Char} {g : Gap} {i j : Nat}

section Skipped

variable {rest cs : List Char} {depth opened : Nat}

theorem Skipped.filler (h : Skipped rest .blank cs) : Filler rest cs := by
  cases h with
  | blank h => exact h

theorem Skipped.line (hc : c ≠ '\n') (h : Skipped rest .lineComment cs) :
    Skipped rest .lineComment (c :: cs) := by
  cases h with
  | lineComment hbody hend hs =>
    rw [← List.cons_append]
    refine .lineComment ?_ hend hs
    rw [List.mem_cons, not_or]
    exact ⟨hc.symm, hbody⟩

/-- The innermost open comment grows by a character that is no mark with what
follows it. -/
theorem Skipped.plain (h : Skipped rest (.blockComment depth opened) cs)
    (hmark : ¬AtMark (c :: (cs ++ rest))) :
    Skipped rest (.blockComment depth opened) (c :: cs) := by
  have hplain : ∀ {body more : List Char}, CommentBody body →
      ¬AtMark (c :: (body ++ more)) → CommentBody (c :: body) := by
    intro body more hbody hmark
    refine .plain (fun hat => hmark ?_) hbody
    cases hbody with
    | _ =>
      revert hat
      unfold AtMark
      grind
  cases h with
  | lastComment hbody hs =>
    rw [List.append_assoc] at hmark
    exact .lastComment (hplain hbody hmark) hs
  | innerComment hbody hs =>
    rw [List.append_assoc] at hmark
    exact .innerComment (hplain hbody hmark) hs

/-- A comment that opens inside another is part of it once it is closed. -/
theorem Skipped.nest (h : Skipped rest (.blockComment (depth + 1) opened) cs) :
    Skipped rest (.blockComment depth opened) ('/' :: '*' :: cs) := by
  cases h with
  | innerComment hinner hs =>
    cases hs with
    | lastComment houter hs =>
      rw [← List.append_assoc]
      exact .lastComment (.nested hinner houter) hs
    | innerComment houter hs =>
      rw [← List.append_assoc]
      exact .innerComment (.nested hinner houter) hs

end Skipped

/-- The text `cs` at the offset `i` is what is skipped inside of `g`, and then `rest` at `j`. -/
def Gap.Skips (g : Gap) (cs : List Char) (i : Nat) (rest : List Char) (j : Nat) : Prop :=
  ∃ gap, cs = gap ++ rest ∧ j = i + gap.length ∧ Skipped rest g gap

/-- Marks before a gap that lead from one state of the reader to another. -/
theorem Gap.Skips.before {g' : Gap} (marks : List Char) (h : g.Skips cs (i + marks.length) rest j)
    (hs : ∀ gap, cs = gap ++ rest → Skipped rest g gap → Skipped rest g' (marks ++ gap)) :
    g'.Skips (marks ++ cs) i rest j := by
  obtain ⟨gap, rfl, hj, hgap⟩ := h
  refine ⟨marks ++ gap, ?_, ?_, hs gap rfl hgap⟩
  · rw [List.append_assoc]
  · rw [List.length_append]
    omega

theorem Gap.skips_stop (h : Skipped rest g []) : g.Skips rest i rest i :=
  ⟨[], rfl, rfl, h⟩

/-- Skipping stops at the first place that is in no gap. -/
theorem skips_of_skipGap (h : skipGap g cs i = .ok (rest, j)) : g.Skips cs i rest j := by
  fun_induction skipGap g cs i with
  | case1 cs i ih =>
    refine (ih h).before ['/', '/'] fun gap _ hgap => .blank ?_
    cases hgap with
    | @lineComment body more hbody hend hs =>
      show Filler rest ('/' :: '/' :: (body ++ more))
      exact .lineComment hbody hend hs
  | case2 cs i ih =>
    refine (ih h).before ['/', '*'] fun gap _ hgap => .blank ?_
    cases hgap with
    | @lastComment body more _ hbody hs =>
      show Filler rest ('/' :: '*' :: (body ++ more))
      exact .blockComment hbody hs
  | case3 c cs i _ _ hc ih =>
    exact (ih h).before [c] fun gap _ hgap => .blank (.blank hc hgap.filler)
  | case4 c cs i _ _ hc =>
    cases h
    exact Gap.skips_stop (.blank .nil)
  | case5 i =>
    cases h
    exact Gap.skips_stop (.blank .nil)
  | case6 cs i ih =>
    refine (ih h).before ['\n'] fun gap _ hgap => ?_
    show Skipped rest .lineComment ([] ++ '\n' :: gap)
    refine .lineComment List.not_mem_nil ?_ (.blank rfl hgap.filler)
    rintro c ⟨⟩
    rfl
  | case7 c cs i hc ih => exact (ih h).before [c] fun gap _ hgap => hgap.line hc
  | case8 i =>
    cases h
    have hend : ∀ c ∈ (([] : List Char) ++ []).head?, c = '\n' := by rintro c ⟨⟩
    exact Gap.skips_stop (.lineComment List.not_mem_nil hend .nil)
  | case9 opened cs i ih =>
    exact (ih h).before ['*', '/'] fun gap _ hgap => .lastComment .close hgap.filler
  | case10 depth opened cs i ih =>
    exact (ih h).before ['*', '/'] fun gap _ hgap => .innerComment .close hgap
  | case11 depth opened cs i ih => exact (ih h).before ['/', '*'] fun gap _ hgap => hgap.nest
  | case12 depth opened c cs i hlast hinner hopen ih =>
    refine (ih h).before [c] fun gap hcs hgap => hgap.plain ?_
    rw [← hcs]
    unfold AtMark
    split
    next cs' he =>
      cases he
      exact fun _ => hopen cs' rfl rfl
    next cs' he =>
      cases he
      cases depth with
      | zero => exact fun _ => hlast cs' rfl rfl rfl
      | succ depth => exact fun _ => hinner depth cs' rfl rfl rfl
    next => exact id
  | case13 => cases h

/-! ## Texts -/

/-- Where the last of the tokens ends; `i` when there is none. -/
def lastStop (i : Nat) (tokens : List Token) : Nat := (tokens.getLast?.map (·.span.stop)).getD i

/-- How tokens lie in a text from the offset `i` on. -/
structure Tiles (file : Nat) (text : List Char) (i : Nat) (tokens : List Token) : Prop where
  /-- The end of the text is the last token and no other. -/
  ends : ∃ body, tokens = body ++ [⟨.eof, ⟨text.length, text.length, file⟩⟩] ∧
    ∀ t ∈ body, t.kind ≠ .eof ∧ t.span.start < t.span.stop ∧ t.span.stop ≤ text.length
  ordered : tokens.Pairwise (·.span.stop ≤ ·.span.start)
  starts : ∀ t ∈ tokens, i ≤ t.span.start
  /-- Between a token and the one before there is a gap. -/
  gaps : ∀ before t after, tokens = before ++ t :: after →
    Filler (text.drop t.span.start) (text.extract (lastStop i before) t.span.start)

section Tiles

variable {file i : Nat} {text : List Char}

theorem tiles_eof (hi : i ≤ text.length)
    (hgap : Filler (text.drop text.length) (text.extract i text.length)) :
    Tiles file text i [⟨.eof, ⟨text.length, text.length, file⟩⟩] where
  ends := ⟨[], rfl, by simp⟩
  ordered := List.pairwise_singleton _ _
  starts := by simpa using hi
  gaps before t after h := by
    obtain ⟨rfl, rfl, rfl⟩ : before = [] ∧ t = _ ∧ after = [] := by
      simpa [List.singleton_eq_append_iff] using h
    exact hgap

/-- A token before others that begin where it ends. -/
theorem Tiles.cons {t : Token} {tokens : List Token} (h : Tiles file text t.span.stop tokens)
    (hkind : t.kind ≠ .eof) (hi : i ≤ t.span.start) (hlt : t.span.start < t.span.stop)
    (hle : t.span.stop ≤ text.length)
    (hgap : Filler (text.drop t.span.start) (text.extract i t.span.start)) :
    Tiles file text i (t :: tokens) where
  ends := by
    obtain ⟨body, rfl, hbody⟩ := h.ends
    refine ⟨t :: body, rfl, fun u hu => ?_⟩
    rcases List.mem_cons.mp hu with rfl | hu
    · exact ⟨hkind, hlt, hle⟩
    · exact hbody u hu
  ordered := List.pairwise_cons.mpr ⟨h.starts, h.ordered⟩
  starts u hu := by
    rcases List.mem_cons.mp hu with rfl | hu
    · exact hi
    · have := h.starts u hu
      omega
  gaps before u after he := by
    cases before with
    | nil =>
      cases he
      exact hgap
    | cons v before =>
      cases he
      have hlast : lastStop i (t :: before) = lastStop t.span.stop before := by
        unfold lastStop
        rw [List.getLast?_cons]
        cases before.getLast? <;> rfl
      rw [hlast]
      exact h.gaps before u after rfl

theorem filler_of_skips (hi : i ≤ text.length) (h : Gap.blank.Skips (text.drop i) i rest j) :
    i ≤ j ∧ j ≤ text.length ∧ text.drop j = rest ∧ Filler (text.drop j) (text.extract i j) := by
  obtain ⟨gap, hdrop, rfl, hgap⟩ := h
  have hlength := congrArg List.length hdrop
  rw [List.length_drop, List.length_append] at hlength
  have hrest : text.drop (i + gap.length) = rest := by
    rw [← List.drop_drop, hdrop, List.drop_left]
  have hextract : text.extract i (i + gap.length) = gap := by
    rw [List.extract_eq_take_drop, hdrop, Nat.add_sub_cancel_left, List.take_left]
  rw [hrest, hextract]
  exact ⟨by omega, by omega, rfl, hgap.filler⟩

theorem tiles_readFrom {tokens : List Token} (hi : i ≤ text.length) (hcs : text.drop i = cs)
    (h : readFrom file cs i = .ok tokens) : Tiles file text i tokens := by
  fun_induction readFrom file cs i generalizing tokens with
  | case1 | case3 => cases h
  | case2 cs i j hskip =>
    cases h
    subst hcs
    obtain ⟨hij, hj, hrest, hgap⟩ := filler_of_skips hi (skips_of_skipGap hskip)
    obtain rfl : j = text.length := Nat.le_antisymm hj (List.drop_eq_nil_iff.mp hrest)
    exact tiles_eof hij hgap
  | case4 cs i c rest j hskip kind n hread ih =>
    subst hcs
    obtain ⟨hij, hj, hrest, hgap⟩ := filler_of_skips hi (skips_of_skipGap hskip)
    obtain ⟨hkind, used, hused, hn⟩ := readOne_decides hread
    have hused := hused.begins.length_le
    have hlength := congrArg List.length hrest
    rw [List.length_drop, List.length_cons] at hlength
    obtain ⟨more, hmore, he⟩ := exists_ok_of_bind h
    cases he
    have hnext : text.drop (j + 1 + n) = rest.drop n := by
      rw [← List.drop_drop, ← List.drop_drop, hrest]
      rfl
    refine (ih (by omega) hnext hmore).cons hkind hij ?_ ?_ hgap
    · show j < j + 1 + n
      omega
    · show j + 1 + n ≤ text.length
      omega

end Tiles

/-- The tokens of a text are in order and without overlap, the last is its end, and
before each of them stand only blanks and whole comments. -/
theorem readAll_tiles {file : Nat} {text : String} {tokens : List Token}
    (h : readAll file text = .ok tokens) : Tiles file text.toList 0 tokens :=
  tiles_readFrom (Nat.zero_le _) List.drop_zero h

/-- A text whose first gap has a comment inside a comment and whose last gap ends with a line
comment that has no line after it. -/
def commented : String := "/* a /* b */ / */ x// c\n+= y//"

theorem readAll_tiles_commented :
    let tokens : List Token :=
      [⟨.name "x", ⟨18, 19, 0⟩⟩, ⟨.symbol .plusEq, ⟨24, 26, 0⟩⟩, ⟨.name "y", ⟨27, 28, 0⟩⟩,
        ⟨.eof, ⟨30, 30, 0⟩⟩]
    readAll 0 commented = .ok tokens ∧ Tiles 0 commented.toList 0 tokens := by
  intro tokens
  have h : readAll 0 commented = .ok tokens := by with_unfolding_all rfl
  exact ⟨h, readAll_tiles h⟩

end JaneCheck.Token
