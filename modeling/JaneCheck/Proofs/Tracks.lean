import JaneCheck.Proofs.Rendering
import JaneCheck.Proofs.Within
import JaneCheck.Syntax.Item

/-!
# What parsers keep and build

A `Track` is what is known of the cursor while a parser runs, with some number of
parentheses open. `Builds files A p B` is the judgement on parsers: before a cursor
with `A`, what `p` builds lies within the files, and the cursor behind it has `B`.
Types and expressions close the parentheses that they open, so they stay on every
track (`stays_levels`).

On one track (`Track.whole`) all tokens are of the files. On the other
(`Track.paired`) all that was read has a level, and it is the number of open
parentheses unless the tokens are used up. At the last token a cursor stays, so from
then on a parser can find any parenthesis there that it looks for, but reads no more
of them.
-/

namespace JaneCheck

open Token

namespace Syntax

/-! ## Cursors -/

namespace Cursor

/-- The tokens that a cursor stands before. -/
def tokens (c : Cursor) : List Token := c.current :: c.rest

/-- The kinds of these tokens. -/
def kinds (c : Cursor) : List Kind := c.tokens.map (·.kind)

variable {c : Cursor}

theorem kinds_eq (c : Cursor) : c.kinds = c.current.kind :: c.rest.map (·.kind) := rfl

theorem advance_of_rest {t : Token} {ts : List Token} (h : c.rest = t :: ts) :
    c.advance = { c with before := c.current.span, current := t, rest := ts } := by
  unfold advance
  rw [h]

theorem advance_kind (c : Cursor) : c.advance.current.kind = c.peek := by
  unfold advance peek
  split <;> rfl

theorem advance_last (h : c.rest = []) : c.advance = c := by
  unfold advance
  rw [h]

/-- All that the cursor has before it is of the files. -/
structure Of (files : Nat → Prop) (c : Cursor) : Prop where
  before : files c.before.file
  current : files c.current.span.file
  rest : ∀ t ∈ c.rest, files t.span.file

end Cursor

/-- What is known of a cursor with some number of parentheses open. -/
structure Track (files : Nat → Prop) where
  holds : Nat → Cursor → Prop
  of_files {x : Nat} {c : Cursor} : holds x c → c.Of files
  literals {x : Nat} {c : Cursor} (b : Bool) : holds x c → holds x { c with literals := b }
  advance {x y : Nat} {c : Cursor} :
    holds x c → c.current.kind.nest x = some y → holds y c.advance

theorem Cursor.Of.advance {files : Nat → Prop} {c : Cursor} (hc : c.Of files) :
    c.advance.Of files := by
  unfold Cursor.advance
  split
  next => exact hc
  next t ts hr =>
    have hrest : ∀ u ∈ t :: ts, files u.span.file := hr ▸ hc.rest
    exact ⟨hc.current, hrest t (by simp), fun u hu => hrest u (by simp [hu])⟩

/-- The tokens are of the files. -/
def Track.whole (files : Nat → Prop) : Track files where
  holds _ c := c.Of files
  of_files h := h
  literals _ h := { h with }
  advance h _ := h.advance

/-- What was read of `ks` has a level. -/
def Track.paired (ks : List Kind) : Track fun _ => True where
  holds x c := ∃ read d, ks = read ++ c.kinds ∧ level 0 read = some d ∧ (c.rest = [] ∨ d = x)
  of_files _ := ⟨trivial, trivial, fun _ _ => trivial⟩
  literals _ h := h
  advance := by
    rintro x y c ⟨read, d, rfl, hlevel, hend⟩ hnest
    cases hrest : c.rest with
    | nil =>
      rw [Cursor.advance_last hrest]
      exact ⟨read, d, rfl, hlevel, .inl hrest⟩
    | cons t ts =>
      obtain rfl : d = x := by simpa [hrest] using hend
      refine ⟨read ++ [c.current.kind], y, ?_, ?_, .inr rfl⟩
      · rw [Cursor.advance_of_rest hrest, Cursor.kinds_eq, hrest, List.append_assoc]
        rfl
      · simp [hlevel, hnest]

/-- What the places in a result of parsing are; data without places have none. -/
class Placed (α : Type) where
  Within (P : Span → Prop) : α → Prop

instance (priority := low) : Placed α := ⟨fun _ _ => True⟩
instance : Placed Span := ⟨fun P s => P s⟩
instance : Placed Ident := ⟨fun P i => P i.span⟩
instance : Placed TypeExpr := ⟨TypeExpr.Within⟩
instance : Placed Expr := ⟨Expr.Within⟩
instance : Placed Arg := ⟨fun P a => a.value.Within P ∧ a.Placed P⟩

instance [Placed α] : Placed (List α) := ⟨fun P as => ∀ a ∈ as, Placed.Within P a⟩
instance [Placed α] : Placed (Option α) := ⟨fun P o => ∀ a ∈ o, Placed.Within P a⟩
instance [Placed α] [Placed β] : Placed (α × β) :=
  ⟨fun P p => Placed.Within P p.1 ∧ Placed.Within P p.2⟩

namespace Parse

theorem exists_of_bind {p : Parse α} {f : α → Parse β} {c c2 : Cursor} {b : β}
    (h : (p >>= f) c = .ok (b, c2)) : ∃ a c1, p c = .ok (a, c1) ∧ f a c1 = .ok (b, c2) := by
  replace h : (p c >>= fun r => f r.1 r.2) = .ok (b, c2) := h
  cases hr : p c with
  | error e =>
    rw [hr] at h
    cases h
  | ok r =>
    rw [hr] at h
    exact ⟨r.1, r.2, rfl, h⟩

/-! ## Runs of parsers -/

section Runs

variable {c c' : Cursor} {s : Symbol}

theorem eq_symbol_of_isSymbol {k : Kind} (h : k.isSymbol s = true) : k = .symbol s := by
  unfold Kind.isSymbol at h
  split at h
  · rw [beq_iff_eq.mp h]
  · cases h

theorem of_accept {found : Bool} (h : accept s c = .ok (found, c')) :
    found = c.current.kind.isSymbol s ∧ c' = if found then c.advance else c := by
  obtain ⟨_, _, hat, h⟩ := exists_of_bind h
  cases hat
  split at h
  next hfound =>
    cases h
    exact ⟨rfl, (if_pos hfound).symm⟩
  next hfound =>
    cases h
    exact ⟨rfl, (if_neg hfound).symm⟩

theorem of_expect (h : expect s c = .ok ((), c')) :
    c.current.kind = .symbol s ∧ c' = c.advance := by
  obtain ⟨found, c1, haccept, h⟩ := exists_of_bind h
  obtain ⟨hfound, rfl⟩ := of_accept haccept
  cases found with
  | false => cases h
  | true =>
    cases h
    exact ⟨eq_symbol_of_isSymbol hfound.symm, rfl⟩

end Runs

/-! ## The judgement -/

variable {files : Nat → Prop}

def Builds [Placed α] (files : Nat → Prop) (A : Cursor → Prop) (p : Parse α)
    (B : Cursor → Prop) : Prop :=
  ∀ ⦃c a c'⦄, A c → p c = .ok (a, c') → Placed.Within (files ·.file) a ∧ B c'

/-- The parser closes the parentheses that it opens. -/
def Stays [Placed α] (T : Track files) (p : Parse α) : Prop :=
  ∀ x, Builds files (T.holds x) p (T.holds x)

section Rules

variable [Placed α] [Placed β] {T : Track files} {A B : Cursor → Prop} {p : Parse α}
  {f : α → Parse β} {x y : Nat}

theorem Builds.pure {a : α} (h : Placed.Within (files ·.file) a) : Builds files A (pure a) A := by
  intro c _ _ hc he
  cases he
  exact ⟨h, hc⟩

theorem builds_throw (e : SyntaxError) : Builds files A (throw e : Parse α) B := by
  intro c a c' _ he
  cases he

theorem Builds.bind {C : Cursor → Prop} (hp : Builds files A p C)
    (hf : ∀ a, Placed.Within (files ·.file) a → Builds files C (f a) B) :
    Builds files A (p >>= f) B := by
  intro c b c2 hA h
  obtain ⟨a, c1, hrun, h⟩ := exists_of_bind h
  obtain ⟨ha, hc1⟩ := hp hA hrun
  exact hf a ha hc1 h

theorem Builds.after (hp : Stays T p)
    (hf : ∀ a, Placed.Within (files ·.file) a → Builds files (T.holds x) (f a) B) :
    Builds files (T.holds x) (p >>= f) B :=
  .bind (hp x) hf

theorem Builds.of (hp : Stays T p) : Builds files (T.holds x) p (T.holds x) := hp x

theorem Builds.map {f : α → β} (hp : Builds files A p B)
    (hf : ∀ a, Placed.Within (files ·.file) a → Placed.Within (files ·.file) (f a)) :
    Builds files A (f <$> p) B :=
  Builds.bind hp fun a ha => .pure (hf a ha)

theorem Builds.forget {C : Cursor → Prop} (h : Builds files A p B) :
    Builds files (fun c => A c ∧ C c) p B :=
  fun _ _ _ hA hrun => h hA.1 hrun

theorem Builds.look {γ : Type} {g : Cursor → γ} {f : γ → Parse β}
    (h : ∀ a, Builds files (fun c => A c ∧ g c = a) (f a) B) :
    Builds files A ((do return g (← get)) >>= f) B :=
  fun c _ _ hA hrun => h (g c) ⟨hA, rfl⟩ hrun

end Rules

/-! ## Tokens -/

section Tokens

variable [Placed α] [Placed β] {T : Track files} {A B : Cursor → Prop} {p : Parse α} {s : Symbol}
  {x y : Nat} {k : Kind}

theorem Builds.kind {f : Kind → Parse α} (h : ∀ k, Builds files A (f k) B) :
    Builds files A (kind >>= f) B := .look fun k => (h k).forget

theorem Builds.kindIs {f : Kind → Parse α}
    (h : ∀ k, Builds files (fun c => A c ∧ c.current.kind = k) (f k) B) :
    Builds files A (Parse.kind >>= f) B := .look h

theorem Builds.peek {f : Kind → Parse α} (h : ∀ k, Builds files A (f k) B) :
    Builds files A (peek >>= f) B := .look fun k => (h k).forget

theorem Builds.atIs {f : Bool → Parse α}
    (h : ∀ k, Builds files (fun c => A c ∧ c.current.kind = k) (f (k.isSymbol s)) B) :
    Builds files A (at? s >>= f) B :=
  fun _ _ _ hA hrun => h _ ⟨hA, rfl⟩ hrun

theorem Builds.at {f : Bool → Parse α} (h : ∀ found, Builds files A (f found) B) :
    Builds files A (at? s >>= f) B :=
  .atIs fun _ => (h _).forget

theorem Builds.rounds {f : Nat → Parse α} (h : ∀ n, Builds files A (f n) B) :
    Builds files A (rounds >>= f) B := .look fun n => (h n).forget

theorem Builds.here {f : Span → Parse α}
    (h : ∀ span, files span.file → Builds files (T.holds x) (f span) B) :
    Builds files (T.holds x) (here >>= f) B :=
  fun _ _ _ hc hrun => h _ (T.of_files hc).current hc hrun

theorem Builds.spanFrom {f : Span → Parse α} {start : Span} (hs : files start.file)
    (h : ∀ span, files span.file → Builds files A (f span) B) :
    Builds files A (spanFrom start >>= f) B :=
  .look fun span => fun _ _ _ hc hrun => h span (hc.2 ▸ hs) hc.1 hrun

theorem Builds.spanned {f : Span → α} {start : Span} (hs : files start.file)
    (h : ∀ span, files span.file → Placed.Within (files ·.file) (f span)) :
    Builds files A (do return f (← Parse.spanFrom start)) A :=
  .spanFrom hs fun span hspan => .pure (h span hspan)

theorem builds_advance (hk : k.nest x = some y) :
    Builds files (fun c => T.holds x c ∧ c.current.kind = k) advance (T.holds y) := by
  intro c a c' hc hrun
  cases hrun
  exact ⟨trivial, T.advance hc.1 (hc.2 ▸ hk)⟩

theorem Builds.step (hk : k.nest x = some y) (h : Builds files (T.holds y) p B) :
    Builds files (fun c => T.holds x c ∧ c.current.kind = k) (advance >>= fun _ => p) B :=
  .bind (builds_advance hk) fun _ _ => h

theorem Builds.twice {f : α → Parse β} (hp : Builds files A p (T.holds x))
    (hadvance : ∀ c a c', p c = .ok (a, c') → c' = c.advance) (hk : k.nest x = some x)
    (hf : ∀ a, Placed.Within (files ·.file) a → Builds files (T.holds x) (f a) B) :
    Builds files (fun c => A c ∧ c.peek = k) (p >>= fun a => advance >>= fun _ => f a) B := by
  intro c b c' ⟨hc, hpeek⟩ hrun
  obtain ⟨a, c1, hfirst, hrun⟩ := exists_of_bind hrun
  obtain ⟨ha, hc1⟩ := hp hc hfirst
  refine Builds.step hk (hf a ha) ⟨hc1, ?_⟩ hrun
  rw [hadvance c a c1 hfirst, Cursor.advance_kind, hpeek]

theorem nest_of_isSymbol (h : k.isSymbol s = true) (hs : (Kind.symbol s).nest x = some y) :
    k.nest x = some y :=
  eq_symbol_of_isSymbol h ▸ hs

theorem builds_unexpected (expected : String) : Builds files A (unexpected expected : Parse α) B :=
  .kind fun _ => .look fun _ => builds_throw _

theorem Builds.acceptOpen {f : Bool → Parse α} (hs : (Kind.symbol s).nest x = some y)
    (htrue : Builds files (T.holds y) (f true) B) (hfalse : Builds files (T.holds x) (f false) B) :
    Builds files (T.holds x) (accept s >>= f) B := by
  intro c a c' hc hrun
  obtain ⟨found, c1, haccept, hrun⟩ := exists_of_bind hrun
  obtain ⟨hfound, rfl⟩ := of_accept haccept
  cases found with
  | true => exact htrue (T.advance hc (nest_of_isSymbol hfound.symm hs)) hrun
  | false => exact hfalse hc hrun

theorem Builds.accept {f : Bool → Parse α} (hs : (Kind.symbol s).nest x = some x)
    (h : ∀ found, Builds files (T.holds x) (f found) B) :
    Builds files (T.holds x) (accept s >>= f) B :=
  .acceptOpen hs (h true) (h false)

theorem Builds.expect (hs : (Kind.symbol s).nest x = some y)
    (h : Builds files (T.holds y) p B) :
    Builds files (T.holds x) (expect s >>= fun _ => p) B := by
  intro c a c' hc hrun
  obtain ⟨_, c1, hexpect, hrun⟩ := exists_of_bind hrun
  have hfound : Builds files (T.holds x) (Parse.expect s) (T.holds y) :=
    .acceptOpen hs (.pure trivial) (builds_unexpected _)
  exact h (hfound hc hexpect).2 hrun

theorem Builds.acceptKeyword {w : Keyword} {f : Bool → Parse α}
    (h : ∀ found, Builds files (T.holds x) (f found) B) :
    Builds files (T.holds x) (acceptKeyword w >>= f) B := by
  have haccept : Builds files (T.holds x) (Parse.acceptKeyword w) (T.holds x) := by
    refine .kindIs fun k => ?_
    dsimp only
    split
    next hk =>
      refine .step ?_ (.pure trivial)
      unfold Kind.isKeyword at hk
      split at hk
      · rfl
      · cases hk
    next => exact .forget (.pure trivial)
  exact .bind haccept fun found _ => h found

theorem Builds.expectKeyword {w : Keyword} (h : Builds files (T.holds x) p B) :
    Builds files (T.holds x) (expectKeyword w >>= fun _ => p) B := by
  have hexpect : Builds files (T.holds x) (Parse.expectKeyword w) (T.holds x) := by
    refine .acceptKeyword fun found => ?_
    split
    · exact .pure trivial
    · exact builds_unexpected _
  exact .bind hexpect fun _ _ => h

theorem stays_ident : Stays T ident := by
  refine fun x => .here fun span hs => .kindIs fun k => ?_
  split
  · exact .step rfl (.pure hs)
  · exact .step rfl (.pure hs)
  · exact builds_throw _

theorem advance_of_ident {c c' : Cursor} {name : Ident} (h : ident c = .ok (name, c')) :
    c' = c.advance := by
  obtain ⟨_, _, hspan, h⟩ := exists_of_bind h
  obtain ⟨_, _, hkind, h⟩ := exists_of_bind h
  split at h
  all_goals
    cases hspan
    obtain ⟨-, rfl⟩ := Prod.mk.inj (Except.ok.inj hkind)
    cases h
  all_goals rfl

theorem stays_withLiterals (allowed : Bool) (hp : Stays T p) :
    Stays T (withLiterals allowed p) := by
  have hset : ∀ b, Stays T (modify fun c : Cursor => { c with literals := b }) := by
    intro b x c a c' hc he
    cases he
    exact ⟨trivial, T.literals b hc⟩
  refine fun x => .look fun saved => .forget (.after (hset _) fun _ _ => ?_)
  exact .after hp fun a ha => .after (hset _) fun _ _ => .pure ha

theorem stays_afterSymbol (hs : ∀ x, (Kind.symbol s).nest x = some x) (hp : Stays T p) :
    Stays T (afterSymbol s p) := by
  refine fun x => .accept (hs x) fun found => ?_
  split
  · exact .after hp fun a ha => .pure (by rintro _ ⟨⟩; exact ha)
  · exact .pure (by rintro _ ⟨⟩)

end Tokens

/-! ## Lists -/

section Lists

variable [Placed α] {T : Track files} {item : Parse α}

theorem within_cons {a : α} {as : List α} (ha : Placed.Within (files ·.file) a)
    (has : Placed.Within (files ·.file) as) : Placed.Within (files ·.file) (a :: as) :=
  List.forall_mem_cons.mpr ⟨ha, has⟩

theorem within_nil : Placed.Within (files ·.file) ([] : List α) := by rintro _ ⟨⟩

theorem stays_more {others : Parse (List α)} (h : Stays T item) (hothers : Stays T others) :
    Stays T (do
      let a ← item
      if ← accept .comma then return a :: (← others) else return [a]) := by
  refine fun x => .after h fun a ha => .accept rfl fun more => ?_
  split
  · exact .after hothers fun as has => .pure (within_cons ha has)
  · exact .pure (within_cons ha within_nil)

theorem stays_commaList (h : Stays T item) : Stays T (commaList item) := by
  have hrounds : ∀ n, Stays T (commaListRounds item n) := by
    intro n
    induction n with
    | zero => exact fun _ => .pure within_nil
    | succ n ih => exact stays_more h ih
  exact fun x => .rounds fun n => .of (hrounds n)

theorem stays_listUntil (close : Symbol) (h : Stays T item) : Stays T (listUntil close item) := by
  have hrounds : ∀ n, Stays T (listUntilRounds close item n) := by
    intro n
    induction n with
    | zero => exact fun _ => .pure within_nil
    | succ n ih =>
      refine fun x => .kind fun k => ?_
      split
      · exact .pure within_nil
      · exact .of (stays_more h ih)
  exact fun x => .rounds fun n => .of (hrounds n)

theorem stays_repeatUntil (close : Symbol) (h : Stays T item) :
    Stays T (repeatUntil close item) := by
  have hrounds : ∀ n, Stays T (repeatUntilRounds close item n) := by
    intro n
    induction n with
    | zero => exact fun _ => .pure within_nil
    | succ n ih =>
      refine fun x => .kind fun k => ?_
      split
      · exact .pure within_nil
      · exact .after h fun a ha => .after ih fun as has => .pure (within_cons ha has)
  exact fun x => .rounds fun n => .of (hrounds n)

end Lists

/-! ## Types -/

/-- The parsers of the level below stay on the track. -/
structure StaysGrammar (T : Track files) (g : Grammar) : Prop where
  type : Stays T g.type
  expr (least : Nat) : Stays T (g.expr least)

section Levels

variable {T : Track files} {g : Grammar} (hg : StaysGrammar T g) {k : Kind}

include hg

theorem stays_mapKey : Stays T (mapKey? g) := by
  intro x c a c' hc hrun
  have hkey : Stays T (do let key ← g.type; return (key, ← accept .colon)) := fun _ =>
    .after hg.type fun key hk => .accept rfl fun found => .pure ⟨hk, trivial⟩
  unfold mapKey? at hrun
  split at hrun
  next key c'' hr =>
    cases hrun
    obtain ⟨⟨hk, -⟩, hc'⟩ := hkey x hc hr
    exact ⟨by rintro _ ⟨⟩; exact hk, hc'⟩
  next =>
    cases hrun
    exact ⟨by rintro _ ⟨⟩, hc⟩

theorem stays_bracketType : Stays T (bracketType g) := by
  refine fun x => .here fun start hs => .expect rfl (.accept rfl fun isSlice => ?_)
  split
  · exact .after hg.type fun t ht => .spanned hs fun _ hp => .slice hp ht
  refine .accept rfl fun isAuto => ?_
  split
  · refine .expect rfl (.after hg.type fun t ht => .spanned hs fun _ hp => ?_)
    exact .array hp (by rintro _ ⟨⟩) ht
  refine .after (stays_mapKey hg) fun key hk => ?_
  split
  next k =>
    exact .after hg.type fun v hv => .expect rfl (.spanned hs fun _ hp => .map hp (hk k rfl) hv)
  next =>
    refine .after (stays_withLiterals true (hg.expr 0)) fun e he => .expect rfl ?_
    refine .after hg.type fun t ht => .spanned hs fun _ hp => ?_
    exact .array hp (by rintro _ ⟨⟩; exact he) ht

theorem stays_typeParam : Stays T (typeParam g) :=
  fun _ => .accept rfl fun _ => .after hg.type fun _ ht => .pure ⟨ht, trivial⟩

theorem stays_functionType : Stays T (functionType g) := by
  refine fun x => .here fun start hs => .expectKeyword (.expect (nest_lparen x) ?_)
  refine .after (stays_listUntil _ (stays_typeParam hg)) fun ps hps => ?_
  refine .expect (nest_rparen x) ?_
  refine .after (stays_afterSymbol (fun _ => rfl) hg.type) fun r hr => ?_
  refine .spanned hs fun _ hp => .function hp (fun t ht => ?_) hr
  obtain ⟨p, hmem, rfl⟩ := List.mem_map.mp ht
  exact (hps p hmem).1

theorem stays_tupleType : Stays T (tupleType g) := by
  refine fun x => .here fun start hs => .expect (nest_lparen x) ?_
  refine .after (stays_commaList hg.type) fun ts hts => .expect (nest_rparen x) ?_
  split
  next t => exact .pure (hts t (by simp))
  next => exact .spanned hs fun _ hp => .tuple hp hts

theorem stays_namedType : Stays T (namedType g) := by
  refine fun x => .here fun start hs => .after stays_ident fun name hname => ?_
  refine .accept rfl fun found => ?_
  split
  · refine .after (stays_listUntil _ hg.type) fun gs hgs => .expect rfl ?_
    exact .spanned hs fun _ hp => .named hname hp hgs
  · exact .spanned hs fun _ hp => .named hname hp (by rintro _ ⟨⟩)

theorem stays_typeLevel : Stays T (typeLevel g) := by
  refine fun x => .here fun start hs => .kindIs fun k => ?_
  split
  · refine .step rfl (.acceptKeyword fun raw => ?_)
    split
    · exact .spanned hs fun _ hp => .rawPointer hp
    · exact .after hg.type fun t ht => .spanned hs fun _ hp => .pointer hp ht
  · exact .step rfl (.after hg.type fun t ht => .spanned hs fun _ hp => .reference hp ht)
  · refine .step rfl (.after hg.type fun t ht => .spanned hs fun _ hp => ?_)
    exact .reference hp (.reference hp ht)
  · exact .forget (.of (stays_bracketType hg))
  · exact .forget (.of (stays_functionType hg))
  · exact .forget (.of (stays_tupleType hg))
  · exact .forget (.of (stays_namedType hg))
  · exact builds_throw _

/-! ## Expressions -/

theorem stays_arg : Stays T (arg g) := by
  refine fun x => .here fun start hs => .kind fun k => .look fun k' => ?_
  extract_lets isNamed rest
  have hrest : ∀ name : Option Ident, (∀ n ∈ name, files n.span.file) → Stays T (rest name) :=
    fun name hname _ => .after (hg.expr 0) fun e he => .spanned hs fun _ hp => ⟨he, hp, hname⟩
  split
  next hnamed =>
    have hcolon := (Bool.and_eq_true_iff.mp hnamed).2
    refine .twice (.of stays_ident) (fun _ _ _ => advance_of_ident) (nest_of_isSymbol hcolon rfl)
      fun name hn => ?_
    exact .bind (.pure (by rintro _ ⟨⟩; exact hn)) fun name hname => .of (hrest name hname)
  next =>
    exact .forget (.bind (.pure (by rintro _ ⟨⟩)) fun name hname => .of (hrest name hname))

theorem stays_args (close : Symbol) : Stays T (args g close) :=
  stays_withLiterals _ (stays_listUntil _ (stays_arg hg))

theorem stays_suffixRounds (n : Nat) {e : Expr} (he : e.Within (files ·.file)) :
    Stays T (suffixRounds g e n) := by
  induction n generalizing e with
  | zero => exact fun _ => .pure he
  | succ n ih =>
    intro x
    have hs : files e.span.file := he.span
    refine .acceptOpen (nest_lparen x) ?_ ?_
    · refine .after (stays_args hg _) fun as has => .expect (nest_rparen x) ?_
      exact .spanFrom hs fun _ hp =>
        .of (ih (.call hp he (fun a ha => (has a ha).1) fun a ha => (has a ha).2))
    refine .accept rfl fun isField => ?_
    split
    · exact .after stays_ident fun name hn => .of (ih (.field hs he hn))
    refine .accept rfl fun isIndex => ?_
    split
    · refine .after (stays_withLiterals _ (hg.expr 0)) fun i hi => .expect rfl ?_
      exact .spanFrom hs fun _ hp => .of (ih (.index hp he hi))
    refine .accept rfl fun isSpread => ?_
    split
    · exact .spanFrom hs fun _ hp => .of (ih (.spread hp he))
    · exact .pure he

theorem stays_named : Stays T (named g) := by
  refine fun x => .here fun start hs => .after stays_ident fun name hn => ?_
  refine .atIs fun k => .look fun k' => ?_
  extract_lets explicit rest
  have hrest : ∀ gs, (∀ t ∈ gs, t.Within (files ·.file)) → Stays T (rest gs) := by
    intro gs hgs x
    refine .atIs fun k => .look fun lits => ?_
    split
    next hbrace =>
      have hlbrace := (Bool.and_eq_true_iff.mp hbrace).1
      refine .forget (.step (nest_of_isSymbol hlbrace rfl) ?_)
      refine .after (stays_args hg _) fun as has => ?_
      refine .expect rfl (.spanned hs fun _ hp => ?_)
      exact .structLit hp hgs (fun a ha => (has a ha).1) (fun a ha => (has a ha).2) hn
    next =>
      refine .forget (.forget ?_)
      split
      · exact .spanned hs fun _ hp => .generic hp hgs hn
      · exact .pure (.ident hn)
  split
  next hexplicit =>
    obtain ⟨hcolons, hbracket⟩ := Bool.and_eq_true_iff.mp hexplicit
    refine .twice (builds_advance (nest_of_isSymbol hcolons rfl)) (fun c _ c' h => ?_)
      (nest_of_isSymbol hbracket rfl) fun _ _ => ?_
    · cases h
      rfl
    refine .after (stays_listUntil _ hg.type) fun gs hgs => .expect rfl ?_
    exact .bind (.pure hgs) fun gs hgs => .of (hrest gs hgs)
  next => exact .forget (.forget (.bind (.pure within_nil) fun gs hgs => .of (hrest gs hgs)))

theorem stays_arrayLiteral : Stays T (arrayLiteral g) := by
  refine fun x => .here fun start hs => .expect rfl ?_
  refine .after (stays_withLiterals _ (stays_listUntil _ (hg.expr 0))) fun es hes => ?_
  exact .expect rfl (.spanned hs fun _ hp => .array hp hes)

omit hg in
theorem builds_literal {x : Nat} (value : Literal) (hk : k.nest x = some x) :
    Builds files (fun c => T.holds x c ∧ c.current.kind = k) (literal value) (T.holds x) := by
  intro c a c' hc hrun
  cases hrun
  exact ⟨.literal (T.of_files hc.1).current, T.advance hc.1 (hc.2 ▸ hk)⟩

theorem stays_atom : Stays T (atom g) := by
  refine fun x => .kindIs fun k => ?_
  split
  case h_8 => exact .forget (.of (stays_named hg))
  case h_9 => exact .forget (.of (stays_named hg))
  case h_10 =>
    refine .step (nest_lparen x) (.after (stays_withLiterals _ (hg.expr 0)) fun e he => ?_)
    exact .expect (nest_rparen x) (.pure he)
  case h_11 => exact .forget (.of (stays_arrayLiteral hg))
  case h_12 => exact .look fun _ => builds_throw _
  all_goals exact builds_literal _ rfl

omit hg in
theorem nest_of_unOp {op : UnOp} (h : unOp? k = some op) (d : Nat) : k.nest d = some d := by
  unfold unOp? at h
  split at h
  all_goals first
    | rfl
    | cases h

theorem stays_operandRounds (n : Nat) : Stays T (operandRounds g n) := by
  induction n with
  | zero => exact fun _ => .look fun _ => builds_throw _
  | succ n ih =>
    refine fun x => .here fun start hs => .kindIs fun k => ?_
    split
    next op hop => exact .step (nest_of_unOp hop x) (.after ih fun e he => .pure (.unary hs he))
    next =>
      refine .forget (.after (stays_atom hg) fun e he => ?_)
      exact .rounds fun n => .of (stays_suffixRounds hg n he)

omit hg in
theorem nest_of_precedence {n : Nat} (h : precedence? k = some n) (d : Nat) :
    k.nest d = some d := by
  unfold precedence? at h
  split at h
  · rfl
  · split at h
    all_goals first
      | rfl
      | cases h
  · cases h

theorem stays_operatorRounds (least n : Nat) {left : Expr} (hl : left.Within (files ·.file)) :
    Stays T (operatorRounds g least left n) := by
  induction n generalizing left with
  | zero => exact fun _ => .pure hl
  | succ n ih =>
    have hs : files left.span.file := hl.span
    refine fun x => .kindIs fun k => ?_
    split
    · exact .forget (.pure hl)
    next p hp =>
    have hnest := nest_of_precedence hp x
    split
    · exact .forget (.pure hl)
    split
    · split
      · exact .step hnest (.after (hg.expr _) fun r hr => .of (ih (.binary hs hl hr)))
      · exact .forget (.pure hl)
    · exact .step hnest (.after hg.type fun t ht => .of (ih (.cast hs hl ht)))

theorem stays_exprLevel (least : Nat) : Stays T (exprLevel g least) :=
  fun _ => .after (fun _ => .rounds fun n => .of (stays_operandRounds hg n)) fun _ hl =>
    .rounds fun n => .of (stays_operatorRounds hg least n hl)

end Levels

theorem stays_levels (T : Track files) (n : Nat) : StaysGrammar T ⟨typeAt n, exprAt n⟩ := by
  induction n with
  | zero => exact ⟨fun _ => .look fun _ => builds_throw _, fun _ _ => .look fun _ => builds_throw _⟩
  | succ n ih => exact ⟨stays_typeLevel ih, fun least => stays_exprLevel ih least⟩

end Parse

end Syntax

end JaneCheck
