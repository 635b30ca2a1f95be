import JaneCheck.Proofs.Tiling

/-!
# Gaps between tokens do not matter

A token is what the reader makes of the text at the token's place (`ReadAt`), and its own
characters decide it. So the tokens of a text, written one behind the other with a space
between each and the next, are read as the same tokens (`readAll_spaced`).
-/

namespace JaneCheck.Token

/-- The characters of a token of the text. -/
def source (text : List Char) (t : Token) : List Char := text.extract t.span.start t.span.stop

variable {c : Char} {cs rest used more : List Char} {n : Nat}

/-- A text that begins with no gap. -/
def Stands (cs : List Char) : Prop := ∀ i, skipGap .blank cs i = .ok (cs, i)

theorem stands_cons_iff : Stands (c :: cs) ↔
    isBlank c = false ∧ (c = '/' → ∀ d ∈ cs.head?, d ≠ '/' ∧ d ≠ '*') := by
  -- What is left after a gap is not longer than what follows the gap's first character.
  have shorter {g : Gap} {ds : List Char} {k : Nat} (hlt : ds.length ≤ cs.length) :
      skipGap g ds k ≠ .ok (c :: cs, 0) := fun h => by
    have := length_le_of_skipGap h
    grind
  simp only [Option.mem_def, List.head?_eq_some_iff]
  constructor
  · intro h
    have h := h 0
    unfold skipGap at h
    grind
  · rintro ⟨hblank, hslash⟩ i
    rw [skipGap.eq_3, hblank]
    · rfl
    · grind
    · grind

theorem stands_of_skipGap {g : Gap} {i j : Nat} (h : skipGap g cs i = .ok (rest, j)) :
    Stands rest := by
  fun_induction skipGap g cs i with
  | case4 c cs i hline hblock hblank =>
    cases h
    rw [stands_cons_iff]
    simp only [Option.mem_def, List.head?_eq_some_iff]
    grind
  | case5 | case8 =>
    cases h
    exact fun _ => rfl
  | case13 => cases h
  | _ => simp_all

/-- Characters that begin no comment in the text begin none when they stand apart. -/
theorem Stands.alone (h : Stands (c :: cs)) (hused : used <+: cs) (hmore : Apart more) :
    Stands (c :: (used ++ more)) := by
  rw [stands_cons_iff] at h ⊢
  refine ⟨h.1, fun hc d hd => ?_⟩
  rcases head_of_begins hused hmore hd with hd | rfl
  · exact h.2 hc d hd
  · decide

section Texts

variable {text : List Char} {file i : Nat} {kind : Kind} {t : Token}

/-- The token is what the reader makes of the text at the token's place. -/
structure ReadAt (text : List Char) (t : Token) (c : Char) (used rest : List Char) : Prop where
  here : text.drop t.span.start = c :: (used ++ rest)
  stop : t.span.stop = t.span.start + 1 + used.length
  stands : Stands (c :: (used ++ rest))
  read : readOne c (used ++ rest) = .ok (t.kind, used.length)
  decides : Decides (readOne c) used (used ++ rest)

theorem ReadAt.source (h : ReadAt text t c used rest) : source text t = c :: used := by
  rw [Token.source, List.extract_eq_take_drop, h.here, h.stop,
    show t.span.start + 1 + used.length - t.span.start = used.length + 1 by omega,
    List.take_succ_cons, List.take_left]

theorem readAt_of_readFrom {tokens : List Token} (hi : i ≤ text.length)
    (hcs : text.drop i = cs) (h : readFrom file cs i = .ok tokens) :
    ∃ body j, tokens = body ++ [⟨.eof, ⟨j, j, file⟩⟩] ∧
      ∀ t ∈ body, ∃ c used rest, ReadAt text t c used rest := by
  fun_induction readFrom file cs i generalizing tokens with
  | case1 | case3 => cases h
  | case2 cs i j hskip =>
    cases h
    exact ⟨[], j, rfl, List.forall_mem_nil _⟩
  | case4 cs i c rest j hskip kind n hread ih =>
    subst hcs
    obtain ⟨-, hj, hhere, -⟩ := filler_of_skips hi (skips_of_skipGap hskip)
    obtain ⟨-, used, hused, rfl⟩ := readOne_decides hread
    obtain ⟨rest, rfl⟩ := hused.begins
    have hlength := congrArg List.length hhere
    rw [List.length_drop, List.length_cons, List.length_append] at hlength
    obtain ⟨more, hmore, he⟩ := exists_ok_of_bind h
    cases he
    have hnext : text.drop (j + 1 + used.length) = (used ++ rest).drop used.length := by
      rw [← List.drop_drop, ← List.drop_drop, hhere]
      rfl
    obtain ⟨body, k, rfl, hbody⟩ := ih (by omega) hnext hmore
    let t : Token := ⟨kind, ⟨j, j + 1 + used.length, file⟩⟩
    have ht : ReadAt text t c used rest := ⟨hhere, rfl, stands_of_skipGap hskip, hread, hused⟩
    exact ⟨t :: body, k, rfl, List.forall_mem_cons.mpr ⟨⟨c, used, rest, ht⟩, hbody⟩⟩

theorem readFrom_of_stands (hstands : Stands (c :: cs)) (hread : readOne c cs = .ok (kind, n)) :
    readFrom file (c :: cs) i = do
      let tokens ← readFrom file (cs.drop n) (i + 1 + n)
      return ⟨kind, ⟨i, i + 1 + n, file⟩⟩ :: tokens := by
  have hskip := hstands i
  rw [readFrom]
  split <;> simp_all

theorem readFrom_space : readFrom file (' ' :: cs) i = readFrom file cs (i + 1) := by
  rw [readFrom, readFrom.eq_def file cs]
  rfl

/-- The tokens of a text, with a space between each and the next. -/
def spaced (text : List Char) (tokens : List Token) : List Char :=
  [' '].intercalate ((tokens.filter (!·.kind.isEof)).map (source text))

theorem readFrom_spaced {body : List Token}
    (hbody : ∀ t ∈ body, ∃ c used rest, ReadAt text t c used rest) (file i : Nat) :
    ∃ tokens, readFrom file ([' '].intercalate (body.map (source text))) i = .ok tokens ∧
      tokens.map (·.kind) = body.map (·.kind) ++ [.eof] := by
  induction body generalizing i with
  | nil => exact ⟨_, by rw [List.map_nil, List.intercalate_nil, readFrom]; rfl, rfl⟩
  | cons t body ih =>
    obtain ⟨⟨c, used, rest, ht⟩, hbody⟩ := List.forall_mem_cons.mp hbody
    -- What follows the token is the end of the text, or a space before the other tokens.
    obtain ⟨more, hmore, hjoined, tokens, hread, hkinds⟩ : ∃ more, Apart more ∧
        [' '].intercalate ((t :: body).map (source text)) = source text t ++ more ∧
        ∃ tokens, readFrom file more (i + 1 + used.length) = .ok tokens ∧
          tokens.map (·.kind) = body.map (·.kind) ++ [.eof] := by
      cases body with
      | nil =>
        obtain ⟨tokens, hread, hkinds⟩ := ih hbody _
        exact ⟨[], nofun, by simp, tokens, hread, hkinds⟩
      | cons u body =>
        obtain ⟨tokens, hread, hkinds⟩ := ih hbody _
        refine ⟨_ :: _, ?_, List.intercalate_cons_cons.trans (List.append_assoc ..), tokens, ?_,
          hkinds⟩
        · simp [Apart]
        · exact readFrom_space.trans hread
    have hone := (ht.decides.alone hmore).trans ht.read
    let again : Token := ⟨t.kind, ⟨i, i + 1 + used.length, file⟩⟩
    refine ⟨again :: tokens, ?_, by rw [List.map_cons, hkinds]; rfl⟩
    rw [hjoined, ht.source, List.cons_append,
      readFrom_of_stands (ht.stands.alone (List.prefix_append _ _) hmore) hone, List.drop_left,
      hread]
    rfl

end Texts

/-- Gaps do not matter between tokens: the tokens of a text, with a space between each and the
next, are read as tokens of the same kinds and values. -/
theorem readAll_spaced {file : Nat} {text : String} {tokens : List Token}
    (h : readAll file text = .ok tokens) :
    ∃ again, readAll file (String.ofList (spaced text.toList tokens)) = .ok again ∧
      again.map (·.kind) = tokens.map (·.kind) := by
  obtain ⟨body, j, rfl, hbody⟩ := readAt_of_readFrom (Nat.zero_le _) List.drop_zero h
  let eof : Token := ⟨.eof, ⟨j, j, file⟩⟩
  have hkept : (body ++ [eof]).filter (!·.kind.isEof) = body := by
    rw [List.filter_append, List.filter_eq_self.mpr]
    · exact List.append_nil _
    · intro t ht
      obtain ⟨c, used, rest, hread⟩ := hbody t ht
      have hkind := (readOne_decides hread.read).1
      unfold Kind.isEof
      split
      · contradiction
      · rfl
  obtain ⟨again, hagain, hkinds⟩ := readFrom_spaced hbody file 0
  refine ⟨again, ?_, by rw [hkinds, List.map_append]; rfl⟩
  rw [readAll, String.toList_ofList, spaced, hkept]
  exact hagain

/-- Without the comments and with nothing in their place, `ab` is one name and `++` one symbol. -/
def separated : String := "a/**/b+/* + */+"

theorem readAll_spaced_separated :
    let tokens : List Token := [⟨.name "a", ⟨0, 1, 0⟩⟩, ⟨.name "b", ⟨5, 6, 0⟩⟩,
      ⟨.symbol .plus, ⟨6, 7, 0⟩⟩, ⟨.symbol .plus, ⟨14, 15, 0⟩⟩, ⟨.eof, ⟨15, 15, 0⟩⟩]
    readAll 0 separated = .ok tokens ∧
      spaced separated.toList tokens = ['a', ' ', 'b', ' ', '+', ' ', '+'] ∧
      ∃ again, readAll 0 (String.ofList (spaced separated.toList tokens)) = .ok again ∧
        again.map (·.kind) = tokens.map (·.kind) := by
  intro tokens
  have h : readAll 0 separated = .ok tokens := by with_unfolding_all rfl
  exact ⟨h, by with_unfolding_all rfl, readAll_spaced h⟩

end JaneCheck.Token
