import JaneCheck.Proofs.Tracks

/-!
# Parsers that succeed

`Reads p ahead behind Q` is the judgement on parsers that succeed: before tokens of
the kinds `ahead`, with struct literals allowed, the parser gives a result with `Q`
and stops before those of the kinds `behind`. `ReadsUpTo` says it of all tokens that
may stand behind. A list of renderings is read as the list of what its items are read
as (`reads_listUntil`, `reads_commaList`).
-/

namespace JaneCheck

open Token

namespace Syntax

namespace Parse

/-! ## The judgement -/

def Reads (p : Parse α) (ahead behind : List Kind) (Q : α → Prop) : Prop :=
  ∀ ⦃c : Cursor⦄, c.literals = true → c.kinds = ahead →
    ∃ a c', p c = .ok (a, c') ∧ c'.literals = true ∧ c'.kinds = behind ∧
      c'.tokens <:+ c.tokens ∧ Q a

section Rules

variable {ks ks1 ks2 : List Kind} {Q : α → Prop} {R : β → Prop}

theorem Reads.pure {a : α} (h : Q a) : Reads (pure a) ks ks Q :=
  fun c hlit hkinds => ⟨a, c, rfl, hlit, hkinds, List.suffix_rfl, h⟩

theorem Reads.bind {p : Parse α} {f : α → Parse β} (hp : Reads p ks ks1 Q)
    (hf : ∀ a, Q a → Reads (f a) ks1 ks2 R) : Reads (p >>= f) ks ks2 R := by
  intro c hlit hkinds
  obtain ⟨a, c1, hrun, hlit1, hkinds1, hsuffix1, ha⟩ := hp hlit hkinds
  obtain ⟨b, c2, hrun2, hlit2, hkinds2, hsuffix2, hb⟩ := hf a ha hlit1 hkinds1
  refine ⟨b, c2, ?_, hlit2, hkinds2, hsuffix2.trans hsuffix1, hb⟩
  show (p c >>= fun r => f r.1 r.2) = .ok (b, c2)
  rw [hrun]
  exact hrun2

theorem Reads.mono {p : Parse α} {Q' : α → Prop} (hp : Reads p ks ks1 Q) (h : ∀ a, Q a → Q' a) :
    Reads p ks ks1 Q' := by
  intro c hlit hkinds
  obtain ⟨a, c1, hrun, hlit1, hkinds1, hsuffix1, ha⟩ := hp hlit hkinds
  exact ⟨a, c1, hrun, hlit1, hkinds1, hsuffix1, h a ha⟩

theorem Reads.look {f : Cursor → α} {g : α → Parse β}
    (h : ∀ c : Cursor, c.literals = true → c.kinds = ks → Reads (g (f c)) ks ks1 R) :
    Reads ((do return f (← get)) >>= g) ks ks1 R :=
  fun c hlit hkinds => h c hlit hkinds hlit hkinds

end Rules

/-! ## Tokens -/

section Tokens

variable {ks ks1 : List Kind} {k k' : Kind} {Q : α → Prop} {s : Symbol}

theorem kinds_eq_cons {c : Cursor} (h : c.kinds = k :: ks) :
    c.current.kind = k ∧ c.rest.map (·.kind) = ks := by
  rw [Cursor.kinds_eq] at h
  exact List.cons.inj h

theorem Reads.kind {f : Kind → Parse α} (h : Reads (f k) (k :: ks) ks1 Q) :
    Reads (kind >>= f) (k :: ks) ks1 Q := by
  refine .look fun c _ hc => ?_
  rw [(kinds_eq_cons hc).1]
  exact h

theorem Reads.peek {f : Kind → Parse α} (h : Reads (f k') (k :: k' :: ks) ks1 Q) :
    Reads (peek >>= f) (k :: k' :: ks) ks1 Q := by
  refine .look fun c _ hc => ?_
  have hpeek : c.peek = k' := by
    obtain ⟨t, ts, hrest, rfl, -⟩ := List.map_eq_cons_iff.mp (kinds_eq_cons hc).2
    unfold Cursor.peek
    rw [hrest]
  rw [hpeek]
  exact h

theorem Reads.get {f : Cursor → Parse α} (h : ∀ c, c.literals = true → Reads (f c) ks ks1 Q) :
    Reads (get >>= f) ks ks1 Q :=
  fun c hlit hkinds => h c hlit hlit hkinds

theorem Reads.at {f : Bool → Parse α} (h : Reads (f (k.isSymbol s)) (k :: ks) ks1 Q) :
    Reads (at? s >>= f) (k :: ks) ks1 Q := by
  intro c hlit hkinds
  have hrun : (at? s >>= f) c = f (c.current.kind.isSymbol s) c := rfl
  rw [hrun, (kinds_eq_cons hkinds).1]
  exact h hlit hkinds

theorem Reads.here {f : Span → Parse α} (h : ∀ span, Reads (f span) ks ks1 Q) :
    Reads (here >>= f) ks ks1 Q :=
  .look fun _ _ _ => h _

theorem Reads.spanFrom {f : Span → Parse α} {start : Span} (h : ∀ span, Reads (f span) ks ks1 Q) :
    Reads (spanFrom start >>= f) ks ks1 Q :=
  .look fun _ _ _ => h _

theorem Reads.rounds {f : Nat → Parse α} (h : ∀ n, ks.length ≤ n → Reads (f n) ks ks1 Q) :
    Reads (rounds >>= f) ks ks1 Q := by
  refine .look fun c _ hc => h _ (Nat.le_of_eq ?_)
  rw [← hc, Cursor.kinds_eq, List.length_cons, List.length_map]

theorem kinds_advance {c : Cursor} (h : c.kinds = k :: ks) (hks : ks ≠ []) :
    c.advance.kinds = ks ∧ c.advance.tokens = c.rest := by
  obtain ⟨-, htail⟩ := kinds_eq_cons h
  have hne : c.rest ≠ [] := by
    intro hnil
    rw [hnil] at htail
    exact hks htail.symm
  obtain ⟨t, ts, hrest⟩ := List.exists_cons_of_ne_nil hne
  rw [Cursor.advance_of_rest hrest, ← htail, hrest]
  exact ⟨rfl, rfl⟩

theorem advance_literals (c : Cursor) : c.advance.literals = c.literals := by
  unfold Cursor.advance
  split <;> rfl

theorem reads_advance (hks : ks ≠ []) :
    Reads advance (k :: ks) ks fun _ => True := by
  intro c hlit hkinds
  obtain ⟨hnext, htokens⟩ := kinds_advance hkinds hks
  refine ⟨(), c.advance, rfl, (advance_literals c).trans hlit, hnext, ?_, trivial⟩
  rw [htokens]
  exact List.suffix_cons _ _

theorem Reads.advance {f : Unit → Parse α} (hks : ks ≠ []) (hf : Reads (f ()) ks ks1 Q) :
    Reads (advance >>= f) (k :: ks) ks1 Q :=
  .bind (reads_advance hks) fun _ _ => hf

theorem reads_accept (s : Symbol) (hks : ks ≠ []) :
    Reads (accept s) (.symbol s :: ks) ks (· = true) := by
  have hs : (Kind.symbol s).isSymbol s = true := beq_self_eq_true s
  refine .at ?_
  rw [hs]
  exact .advance hks <| .pure rfl

theorem reads_refuse (h : k.isSymbol s = false) :
    Reads (accept s) (k :: ks) (k :: ks) (· = false) := by
  refine .at ?_
  rw [h]
  exact .pure rfl

theorem Reads.take {f : Bool → Parse α} (hks : ks ≠ []) (hf : Reads (f true) ks ks1 Q) :
    Reads (accept s >>= f) (.symbol s :: ks) ks1 Q :=
  .bind (reads_accept s hks) fun _ hfound => hfound ▸ hf

theorem Reads.pass {f : Bool → Parse α} (h : k.isSymbol s = false)
    (hf : Reads (f false) (k :: ks) ks1 Q) : Reads (accept s >>= f) (k :: ks) ks1 Q :=
  .bind (reads_refuse h) fun _ hfound => hfound ▸ hf

theorem reads_expect (s : Symbol) (hks : ks ≠ []) :
    Reads (expect s) (.symbol s :: ks) ks fun _ => True := by
  refine .take hks ?_
  exact .pure trivial

theorem Reads.expect {f : Unit → Parse α} (hks : ks ≠ []) (hf : Reads (f ()) ks ks1 Q) :
    Reads (expect s >>= f) (.symbol s :: ks) ks1 Q :=
  .bind (reads_expect s hks) fun _ _ => hf

theorem reads_acceptKeyword (w : Keyword) (hks : ks ≠ []) :
    Reads (acceptKeyword w) (.keyword w :: ks) ks (· = true) := by
  have hw : (Kind.keyword w).isKeyword w = true := beq_self_eq_true w
  refine .kind ?_
  rw [hw]
  exact .advance hks <| .pure rfl

theorem reads_refuseKeyword {w : Keyword} (h : k.isKeyword w = false) :
    Reads (acceptKeyword w) (k :: ks) (k :: ks) (· = false) := by
  refine .kind ?_
  rw [h]
  exact .pure rfl

theorem reads_expectKeyword (w : Keyword) (hks : ks ≠ []) :
    Reads (expectKeyword w) (.keyword w :: ks) ks fun _ => True := by
  refine .bind (reads_acceptKeyword w hks) fun found hfound => ?_
  rw [hfound]
  exact .pure trivial

theorem reads_ident (name : String) (hks : ks ≠ []) :
    Reads ident (ofName name :: ks) ks (·.name = name) := by
  refine .here fun span => .kind ?_
  unfold ofName
  by_cases hself : name = "self"
  · rw [if_pos hself]
    exact .advance hks <| .pure hself.symm
  · rw [if_neg hself]
    exact .advance hks <| .pure rfl

theorem Reads.withLiterals {p : Parse α} (h : Reads p ks ks1 Q) :
    Reads (withLiterals true p) ks ks1 Q := by
  have hset : ∀ ks, Reads (modify fun c : Cursor => { c with literals := true }) ks ks
      fun _ => True :=
    fun ks c _ hkinds => ⟨(), _, rfl, rfl, hkinds, List.suffix_rfl, trivial⟩
  refine .look fun c hlit _ => ?_
  rw [hlit]
  exact .bind (hset ks) fun _ _ => .bind h fun a ha => .bind (hset ks1) fun _ _ => .pure ha

end Tokens

end Parse

end Syntax

/-! ## First tokens -/

namespace Token

/-- Lists end before the token. -/
def Kind.endsList (k : Kind) : Bool := k.isEof || [.rparen, .rbracket, .rbrace].any k.isSymbol

/-- The tokens begin as types and expressions do. -/
def Begins (ks : List Kind) : Prop :=
  ∃ k ks', ks = k :: ks' ∧ k.endsList = false ∧ k.isKeyword .unsafeKw = false ∧
    k.isSymbol .ellipsis = false

theorem begins_cons {k : Kind} {ks : List Kind} (h : k.endsList = false)
    (hraw : k.isKeyword .unsafeKw = false) (hdots : k.isSymbol .ellipsis = false) :
    Begins (k :: ks) := ⟨k, ks, rfl, h, hraw, hdots⟩

theorem begins_ofName (name : String) (ks : List Kind) : Begins (ofName name :: ks) := by
  unfold ofName
  split <;> exact begins_cons rfl rfl rfl

theorem begins_inBrackets (ks ks' : List Kind) : Begins (inBrackets ks ++ ks') :=
  begins_cons rfl rfl rfl

end Token

namespace Syntax

theorem TypeExpr.begins_tokens (t : TypeExpr) : Begins t.tokens := by
  cases t with
  | named name gs _ => cases gs <;> exact begins_ofName _ _
  | array size t _ => cases size <;> exact begins_inBrackets _ _
  | function ts variadic result _ => cases result <;> exact begins_cons rfl rfl rfl
  | _ => exact begins_cons rfl rfl rfl

theorem Expr.begins_tokens (e : Expr) : Begins e.tokens := by
  cases e with
  | literal value _ =>
    cases value with
    | bool b => cases b <;> exact begins_cons rfl rfl rfl
    | _ => exact begins_cons rfl rfl rfl
  | ident _ | generic _ _ _ => exact begins_ofName _ _
  | structLit name gs _ _ => cases gs <;> exact begins_ofName _ _
  | unary op _ _ => cases op <;> exact begins_cons rfl rfl rfl
  | _ => exact begins_cons rfl rfl rfl

namespace Parse

/-! ## Lists -/

/-- Before any token that does not continue what is read, the parser reads exactly the
tokens `ks`. -/
def ReadsUpTo (p : Parse α) (continues : Kind → Bool) (ks : List Kind) (Q : α → Prop) : Prop :=
  ∀ ⦃next behind⦄, continues next = false →
    Reads p (ks ++ next :: behind) (next :: behind) Q

theorem commas_single (ks : List Kind) : commas [ks] = ks := by simp [commas, List.intercalate]

theorem commas_cons_cons (ks ks' : List Kind) (items : List (List Kind)) :
    commas (ks :: ks' :: items) = ks ++ .symbol .comma :: commas (ks' :: items) := by
  show [Kind.symbol .comma].intercalate (ks :: ks' :: items) = _
  rw [List.intercalate_cons_cons, List.append_assoc]
  rfl

/-- What a list does behind an item: after a comma it goes on. -/
def moreItems (x : α) (rest : Parse (List α)) : Parse (List α) := do
  if ← accept .comma then return x :: (← rest) else return [x]

section Lists

variable {item : Parse α} {continues : Kind → Bool} {tok : β → List Kind} {f : α → γ} {g : β → γ}
  {ks : List Kind} {close : Symbol}

theorem reads_moreItems {rest : Parse (List α)} {x : α} {y y' : β} {ys : List β} (hx : f x = g y)
    (hks : ks ≠ []) (hrest : Reads rest (commas ((y' :: ys).map tok) ++ ks) ks
      fun xs => xs.map f = (y' :: ys).map g) :
    Reads (moreItems x rest) (.symbol .comma :: (commas ((y' :: ys).map tok) ++ ks)) ks
      fun xs => xs.map f = (y :: y' :: ys).map g := by
  refine .take (by simp [hks]) ?_
  refine .bind hrest fun xs hxs => .pure ?_
  rw [List.map_cons, List.map_cons, hx, hxs]

theorem reads_lastItem {rest : Parse (List α)} {x : α} {y : β} {k : Kind} (hx : f x = g y)
    (hk : k.isSymbol .comma = false) :
    Reads (moreItems x rest) (k :: ks) (k :: ks) fun xs => xs.map f = [y].map g := by
  refine .pass hk ?_
  exact .pure (congrArg (· :: []) hx)

/-- The tokens of an item, and what a parser for items makes of them. -/
structure ItemOf (item : Parse α) (continues : Kind → Bool) (ks : List Kind) (Q : α → Prop) :
    Prop where
  reads : ReadsUpTo item continues ks Q
  head : ∃ k ks', ks = k :: ks' ∧ k.endsList = false

variable (continues) (hcomma : continues (.symbol .comma) = false)
  (hclose : continues (.symbol close) = false) (hends : (Kind.symbol close).endsList = true)

include hcomma hclose hends

/-- A loop that reads an item in each round, when no list ends before it, reads them all. -/
theorem reads_loop {loop : Nat → Parse (List α)}
    (hloop : ∀ n k ks ks' Q, k.endsList = false →
      Reads (do moreItems (← item) (loop n)) (k :: ks) ks' Q → Reads (loop (n + 1)) (k :: ks) ks' Q)
    {ys : List β} {n : Nat} (hys : ys ≠ [])
    (hitem : ∀ y ∈ ys, ItemOf item continues (tok y) (f · = g y))
    (hn : (commas (ys.map tok) ++ .symbol close :: ks).length ≤ n) :
    Reads (loop n) (commas (ys.map tok) ++ .symbol close :: ks)
      (.symbol close :: ks) fun xs => xs.map f = ys.map g := by
  induction ys generalizing n with
  | nil => exact absurd rfl hys
  | cons y ys ih =>
    obtain ⟨n, rfl⟩ : ∃ m, n = m + 1 := by
      refine Nat.exists_eq_succ_of_ne_zero ?_
      rw [List.length_append, List.length_cons] at hn
      omega
    obtain ⟨hy, k0, ks0, htok, hk0⟩ := hitem y List.mem_cons_self
    cases ys with
    | nil =>
      have hne : (Kind.symbol close).isSymbol .comma = false := by
        cases close <;> first | rfl | cases hends
      rw [List.map_singleton, commas_single, htok, List.cons_append]
      refine hloop n k0 _ _ _ hk0 ?_
      rw [← List.cons_append, ← htok]
      exact .bind (hy hclose) fun x hx => reads_lastItem hx hne
    | cons y' ys =>
      rw [List.map_cons, List.map_cons, commas_cons_cons, ← List.map_cons] at hn ⊢
      rw [List.append_assoc, List.cons_append] at hn ⊢
      rw [htok, List.cons_append]
      refine hloop n k0 _ _ _ hk0 ?_
      rw [← List.cons_append, ← htok]
      refine .bind (hy hcomma) fun x hx => reads_moreItems hx (by simp) ?_
      refine ih (by simp) (fun y hmem => hitem y (List.mem_cons_of_mem _ hmem)) ?_
      rw [List.length_append, List.length_cons] at hn
      omega

theorem reads_commaList {ys : List β} (hys : ys ≠ [])
    (hitem : ∀ y ∈ ys, ItemOf item continues (tok y) (f · = g y)) :
    Reads (commaList item) (commas (ys.map tok) ++ .symbol close :: ks) (.symbol close :: ks)
      fun xs => xs.map f = ys.map g :=
  .rounds fun _ hn =>
    reads_loop continues hcomma hclose hends (fun _ _ _ _ _ _ hround => hround) hys hitem hn

theorem reads_listUntil {ys : List β}
    (hitem : ∀ y ∈ ys, ItemOf item continues (tok y) (f · = g y)) :
    Reads (listUntil close item) (commas (ys.map tok) ++ .symbol close :: ks) (.symbol close :: ks)
      fun xs => xs.map f = ys.map g := by
  refine .rounds fun n hn => ?_
  by_cases hys : ys = []
  · subst hys
    cases n with
    | zero => exact .pure rfl
    | succ n =>
      refine .kind ?_
      have hstop : ((Kind.symbol close).isSymbol close || (Kind.symbol close).isEof) = true := by
        rw [show (Kind.symbol close).isSymbol close = true from beq_self_eq_true close]
        rfl
      rw [if_pos hstop]
      exact .pure rfl
  · refine reads_loop continues hcomma hclose hends (fun n k ks ks' Q hk hround => ?_) hys hitem hn
    have hgo : (k.isSymbol close || k.isEof) = false := by
      cases k with
      | symbol s =>
        have hne : close ≠ s := by
          rintro rfl
          rw [hk] at hends
          cases hends
        show (close == s || false) = false
        rw [beq_eq_false_iff_ne.mpr hne]
        rfl
      | eof => cases hk
      | _ => rfl
    refine .kind ?_
    rw [hgo]
    exact hround

end Lists

end Parse

end Syntax

end JaneCheck
