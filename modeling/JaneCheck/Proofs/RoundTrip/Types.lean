import JaneCheck.Proofs.RoundTrip.Rules

/-!
# Reading rendered types

After a bracket a type is tried first, as the key of a map, and the size of an array
may well begin with a type. It stands in parentheses, and what a type reads of them
ends where they are closed, which is not before a colon (`reads_mapKey_size`).

The other lemmas are one for each form of type: if the parsers of the level below read
the parts, the level reads the whole.
-/

namespace JaneCheck

open Token

namespace Syntax

namespace Parse

/-! ## Sizes of arrays -/

variable {s : Symbol}

section Size

variable {size ks : List Kind} {n : Nat}

variable {c c' : Cursor} {g : Grammar}

/-- Up to a closing parenthesis, a type list reads what is even. -/
theorem kinds_of_commaList (hg : ∀ ks, StaysGrammar (.paired ks) g) (hsize : Even size)
    {types : List TypeExpr} (hc : c.kinds = size ++ .symbol .rparen :: ks)
    (h : commaList g.type c = .ok (types, c')) (hend : c'.current.kind = .symbol .rparen) :
    c'.kinds = .symbol .rparen :: ks := by
  obtain ⟨-, read, d, hread, hlevel, hlast⟩ :=
    stays_commaList (hg c.kinds).type 0 ⟨[], 0, rfl, rfl, .inr rfl⟩ h
  rw [hc] at hread
  rcases List.append_eq_append_iff.mp hread with ⟨beyond, rfl, hover⟩ | ⟨left, rfl, hleft⟩
  · cases beyond with
    | nil => exact hover.symm
    | cons k beyond =>
      -- the parenthesis behind the size has no partner
      rw [(List.cons.inj hover).1.symm, level_append, hsize 0] at hlevel
      cases hlevel
  · cases left with
    | nil => exact hleft
    | cons k left =>
      obtain ⟨hk, hrest⟩ := kinds_eq_cons hleft
      have hd : d = 0 := by
        rcases hlast with hnil | hd
        · rw [hnil] at hrest
          simp at hrest
        · exact hd
      have hzero := hsize 0
      rw [level_append, hlevel, hd, ← hk, hend] at hzero
      cases hzero

/-- A type that begins with parentheses ends with them. -/
theorem kinds_of_tupleType (hg : ∀ ks, StaysGrammar (.paired ks) g) (hsize : Even size)
    {t : TypeExpr} (hc : c.kinds = inParens size ++ ks) (hks : ks ≠ [])
    (h : tupleType g c = .ok (t, c')) : c'.kinds = ks := by
  replace hc : c.kinds = .symbol .lparen :: (size ++ .symbol .rparen :: ks) := by
    rw [hc]
    simp [inParens]
  obtain ⟨start, c0, hstart, h⟩ := exists_of_bind h
  cases hstart
  obtain ⟨_, c1, hopen, h⟩ := exists_of_bind h
  obtain ⟨types, c2, hlist, h⟩ := exists_of_bind h
  obtain ⟨_, c3, hclose, h⟩ := exists_of_bind h
  obtain ⟨-, rfl⟩ := of_expect hopen
  obtain ⟨hend, rfl⟩ := of_expect hclose
  have hopened := (kinds_advance hc (by simp)).1
  have hlisted := kinds_of_commaList hg hsize hopened hlist hend
  have hclosed := (kinds_advance hlisted hks).1
  have hstays : c' = c2.advance := by
    split at h <;> cases h <;> rfl
  rw [hstays, hclosed]

theorem typeLevel_lparen (h : c.current.kind = .symbol .lparen) :
    typeLevel g c = tupleType g c := by
  obtain ⟨before, ⟨kind, span⟩, rest, literals⟩ := c
  subst h
  rfl

/-- No size in parentheses is read as the key of a map. -/
theorem reads_mapKey_size (n : Nat) (hsize : Even size) :
    Reads (mapKey? ⟨typeAt n, exprAt n⟩) (inParens size ++ .symbol .rbracket :: ks)
      (inParens size ++ .symbol .rbracket :: ks) (· = none) := by
  intro c hlit hkinds
  refine ⟨none, c, ?_, hlit, hkinds, List.suffix_rfl, rfl⟩
  unfold mapKey?
  split
  next key c2 hkey =>
    obtain ⟨t, c1, htype, hkey⟩ := exists_of_bind hkey
    obtain ⟨found, c2', hcolon, hfound⟩ := exists_of_bind hkey
    cases hfound
    cases n with
    | zero => cases htype
    | succ n =>
      replace htype : typeLevel ⟨typeAt n, exprAt n⟩ c = .ok (key, c1) := htype
      rw [typeLevel_lparen (kinds_eq_cons hkinds).1] at htype
      have hbracket := kinds_of_tupleType (fun _ => stays_levels _ n) hsize hkinds (by simp) htype
      have hcolon := (of_accept hcolon).1
      rw [(kinds_eq_cons hbracket).1] at hcolon
      cases hcolon
  next => rfl

end Size

/-! ## Types -/

def ReadsType (p : Parse TypeExpr) (t : TypeExpr) : Prop :=
  ReadsUpTo p Kind.continuesType t.tokens (·.bare = t.bare)

def ReadsExpr (p : Parse Expr) (e : Expr) : Prop :=
  ReadsUpTo p Kind.continuesExpr e.tokens (·.bare = e.bare)

section Types

variable {g : Grammar} {t u : TypeExpr} {ts : List TypeExpr} {ks ks' : List Kind} {span : Span}

theorem reads_refuse_of_begins (h : Begins ks)
    (hs : s ∈ [Symbol.rparen, .rbracket, .rbrace, .ellipsis]) :
    Reads (accept s) (ks ++ ks') (ks ++ ks') (· = false) := by
  obtain ⟨k, ks, rfl, hends, -, hdots⟩ := h
  rw [List.cons_append]
  refine reads_refuse ?_
  simp only [Kind.endsList, List.any_cons, List.any_nil, Bool.or_eq_false_iff] at hends
  simp only [List.mem_cons, List.not_mem_nil, or_false] at hs
  rcases hs with rfl | rfl | rfl | rfl
  · exact hends.2.1
  · exact hends.2.2.1
  · exact hends.2.2.2.1
  · exact hdots

theorem reads_pointer (h : ReadsType g.type t) : ReadsType (typeLevel g) (.pointer t span) := by
  intro next behind hnext
  have hrefuse : Reads (acceptKeyword .unsafeKw) (t.tokens ++ next :: behind)
      (t.tokens ++ next :: behind) (· = false) := by
    obtain ⟨k, ks, hks, -, hraw, -⟩ := t.begins_tokens
    rw [hks]
    exact reads_refuseKeyword hraw
  show Reads _ (.symbol .star :: (t.tokens ++ next :: behind)) _ _
  refine .here fun start => .kind (.advance (by simp) ?_)
  refine .bind hrefuse fun found hfound => ?_
  rw [hfound]
  refine .bind (h hnext) fun a ha => .spanFrom fun _ => .pure ?_
  simp only [TypeExpr.bare, ha]

theorem reads_reference (h : ReadsType g.type t) : ReadsType (typeLevel g) (.reference t span) := by
  intro next behind hnext
  show Reads _ (.symbol .amp :: (t.tokens ++ next :: behind)) _ _
  refine .here fun start => .kind (.advance (by simp) ?_)
  refine .bind (h hnext) fun a ha => .spanFrom fun _ => .pure ?_
  simp only [TypeExpr.bare, ha]

theorem reads_rawPointer : ReadsType (typeLevel g) (.rawPointer span) := by
  intro next behind hnext
  show Reads _ (.symbol .star :: .keyword .unsafeKw :: next :: behind) _ _
  refine .here fun start => .kind (.advance (by simp) ?_)
  refine .bind (reads_acceptKeyword _ (by simp)) fun found hfound => ?_
  rw [hfound]
  exact .spanFrom fun _ => .pure rfl

theorem reads_slice (h : ReadsType g.type t) : ReadsType (typeLevel g) (.slice t span) := by
  intro next behind hnext
  show Reads _ (.symbol .lbracket :: .symbol .rbracket :: (t.tokens ++ next :: behind)) _ _
  refine .here fun _ => .kind (.here fun start => ?_)
  refine .expect (by simp) <| .take (by simp) ?_
  refine .bind (h hnext) fun a ha => .spanFrom fun _ => .pure ?_
  simp only [TypeExpr.bare, ha]

theorem reads_array_none (h : ReadsType g.type t) :
    ReadsType (typeLevel g) (.array none t span) := by
  intro next behind hnext
  show Reads _ (.symbol .lbracket :: .symbol .ellipsis :: .symbol .rbracket ::
    (t.tokens ++ next :: behind)) _ _
  refine .here fun _ => .kind (.here fun start => .expect (by simp) ?_)
  refine .pass rfl ?_
  refine .take (by simp) ?_
  refine .expect (by simp) <| .bind (h hnext) fun a ha => .spanFrom fun _ => .pure ?_
  simp only [TypeExpr.bare, ha]

theorem reads_bracketType {Q : TypeExpr → Prop} (hbegins : Begins ks)
    (h : ∀ start, Reads (do
      match ← mapKey? g with
      | some key =>
        let value ← g.type
        expect .rbracket
        return .map key value (← spanFrom start)
      | none =>
        let size ← withLiterals true (g.expr 0)
        expect .rbracket
        let element ← g.type
        return .array (some size) element (← spanFrom start)) (ks ++ ks') behind Q) :
    Reads (typeLevel g) (.symbol .lbracket :: (ks ++ ks')) behind Q := by
  have hne : ks ++ ks' ≠ [] := by
    obtain ⟨k, ks, rfl, -⟩ := hbegins
    simp
  refine .here fun _ => .kind (.here fun start => .expect hne ?_)
  refine .bind (reads_refuse_of_begins hbegins (by simp)) fun closed hclosed => ?_
  rw [hclosed]
  refine .bind (reads_refuse_of_begins hbegins (by simp)) fun dots hdots => ?_
  rw [hdots]
  exact h start

theorem reads_mapKey (h : ReadsType g.type t) (hks : ks ≠ []) :
    Reads (mapKey? g) (t.tokens ++ .symbol .colon :: ks) ks
      fun key => ∃ u : TypeExpr, key = some u ∧ u.bare = t.bare := by
  intro c hlit hkinds
  have hkey : Reads (do let key ← g.type; return (key, ← accept .colon))
      (t.tokens ++ .symbol .colon :: ks) ks fun r => r.1.bare = t.bare ∧ r.2 = true :=
    .bind (h rfl) fun key hbare => .bind (reads_accept _ hks) fun found hfound =>
      .pure ⟨hbare, hfound⟩
  obtain ⟨⟨key, found⟩, c', hrun, hlit', hkinds', hsuffix, hbare, rfl⟩ := hkey hlit hkinds
  refine ⟨some key, c', ?_, hlit', hkinds', hsuffix, key, rfl, hbare⟩
  unfold mapKey?
  rw [hrun]

theorem reads_map (hk : ReadsType g.type t) (hv : ReadsType g.type u) :
    ReadsType (typeLevel g) (.map t u span) := by
  intro next behind hnext
  have htokens : (TypeExpr.map t u span).tokens ++ next :: behind = .symbol .lbracket ::
      (t.tokens ++ .symbol .colon :: (u.tokens ++ .symbol .rbracket :: next :: behind)) := by
    simp [TypeExpr.tokens, inBrackets]
  rw [htokens]
  refine reads_bracketType t.begins_tokens fun start => ?_
  refine .bind (reads_mapKey hk (by simp)) fun key ⟨a, hkey, ha⟩ => ?_
  rw [hkey]
  refine .bind (hv rfl) fun b hb => .expect (by simp) <| .spanFrom fun _ => .pure ?_
  simp only [TypeExpr.bare, ha, hb]

theorem reads_array_some {n : Nat} {e : Expr}
    (he : ReadsUpTo (exprAt n 0) Kind.continuesExpr (inParens e.tokens) (·.bare = e.bare))
    (ht : ReadsType (typeAt n) t) :
    ReadsType (typeLevel ⟨typeAt n, exprAt n⟩) (.array (some e) t span) := by
  intro next behind hnext
  have htokens : (TypeExpr.array (some e) t span).tokens ++ next :: behind = .symbol .lbracket ::
      (inParens e.tokens ++ .symbol .rbracket :: (t.tokens ++ next :: behind)) := by
    simp [TypeExpr.tokens, inBrackets]
  rw [htokens]
  refine reads_bracketType (begins_cons rfl rfl rfl) fun start => ?_
  refine .bind (reads_mapKey_size n e.even_tokens) fun key hkey => ?_
  rw [hkey]
  refine .bind (Reads.withLiterals (he rfl)) fun a ha => .expect (by simp) ?_
  refine .bind (ht hnext) fun b hb => .spanFrom fun _ => .pure ?_
  simp only [TypeExpr.bare, ha, hb]

theorem itemOf_type (h : ReadsType g.type t) :
    ItemOf g.type Kind.continuesType t.tokens (·.bare = t.bare) where
  reads := h
  head := by
    obtain ⟨k, ks, hks, hends, -⟩ := t.begins_tokens
    exact ⟨k, ks, hks, hends⟩

theorem reads_types (hts : ∀ a ∈ ts, ReadsType g.type a) :
    Reads (listUntil .rbracket g.type) (commas (ts.map TypeExpr.tokens) ++ .symbol .rbracket :: ks)
      (.symbol .rbracket :: ks) fun as => TypeExpr.bareAll as = TypeExpr.bareAll ts := by
  simp only [TypeExpr.bareAll_eq_map]
  exact reads_listUntil Kind.continuesType rfl rfl rfl fun a ha => itemOf_type (hts a ha)

theorem reads_named_nil {name : Ident} (hname : name.name ≠ "self") :
    ReadsType (typeLevel g) (.named name [] span) := by
  intro next behind hnext
  have hbracket : next.isSymbol .lbracket = false := by
    simp only [Kind.continuesType, List.any_cons, Bool.or_eq_false_iff] at hnext
    exact hnext.1
  show Reads _ (ofName name.name :: next :: behind) _ _
  have hhead : ofName name.name = .name name.name := if_neg hname
  refine .here fun _ => .kind ?_
  rw [hhead]
  refine .here fun start => ?_
  rw [← hhead]
  refine .bind (reads_ident _ (by simp)) fun i hi => .pass hbracket ?_
  refine .spanFrom fun _ => .pure ?_
  simp only [TypeExpr.bare, Ident.bare, hi]

theorem reads_named_cons {name : Ident} (hname : name.name ≠ "self")
    (hts : ∀ a ∈ t :: ts, ReadsType g.type a) :
    ReadsType (typeLevel g) (.named name (t :: ts) span) := by
  intro next behind hnext
  have hhead : ofName name.name = .name name.name := if_neg hname
  have htokens : (TypeExpr.named name (t :: ts) span).tokens ++ next :: behind =
      ofName name.name :: .symbol .lbracket ::
        (commas ((t :: ts).map TypeExpr.tokens) ++ .symbol .rbracket :: next :: behind) := by
    simp [TypeExpr.tokens, inBrackets, TypeExpr.tokensEach_eq_map]
  rw [htokens]
  refine .here fun _ => .kind ?_
  rw [hhead]
  refine .here fun start => ?_
  rw [← hhead]
  refine .bind (reads_ident _ (by simp)) fun i hi => .take (by simp) ?_
  refine .bind (reads_types hts) fun as has => ?_
  refine .expect (by simp) <| .spanFrom fun _ => .pure ?_
  simp only [TypeExpr.bare, Ident.bare, hi, has]

theorem reads_tuple (hlength : 2 ≤ ts.length) (hts : ∀ a ∈ ts, ReadsType g.type a) :
    ReadsType (typeLevel g) (.tuple ts span) := by
  intro next behind hnext
  have htokens : (TypeExpr.tuple ts span).tokens ++ next :: behind = .symbol .lparen ::
      (commas (ts.map TypeExpr.tokens) ++ .symbol .rparen :: next :: behind) := by
    simp [TypeExpr.tokens, inParens, TypeExpr.tokensEach_eq_map]
  have hne : ts ≠ [] := by
    rintro rfl
    simp at hlength
  rw [htokens]
  refine .here fun _ => .kind (.here fun start => .expect (by simp) ?_)
  refine .bind (reads_commaList Kind.continuesType rfl rfl rfl hne
    fun a ha => itemOf_type (hts a ha)) fun as has => ?_
  have hcount : 2 ≤ as.length := by
    have := congrArg List.length has
    rw [List.length_map, List.length_map] at this
    omega
  refine .expect (by simp) ?_
  split
  next => simp at hcount
  next =>
    refine .spanFrom fun _ => .pure ?_
    simp only [TypeExpr.bare, TypeExpr.bareAll_eq_map, has]

/-- The parameters of a function type, each with whether dots precede it. -/
def dotted (dots : Bool) : List TypeExpr → List (TypeExpr × Bool)
  | [] => []
  | [t] => [(t, dots)]
  | t :: ts => (t, false) :: dotted dots ts

def dottedTokens : TypeExpr × Bool → List Kind
  | (t, true) => .symbol .ellipsis :: t.tokens
  | (t, false) => t.tokens

theorem dotLast_tokens (dots : Bool) (ts : List TypeExpr) :
    dotLast dots (ts.map TypeExpr.tokens) = (dotted dots ts).map dottedTokens := by
  fun_induction dotted dots ts with
  | case1 => rfl
  | case2 t => cases dots <;> rfl
  | case3 t ts hts ih =>
    obtain ⟨t', ts, rfl⟩ := List.exists_cons_of_ne_nil (l := ts) fun h => hts (h ▸ rfl)
    show t.tokens :: dotLast dots ((t' :: ts).map TypeExpr.tokens) = _
    rw [ih]
    rfl

theorem map_dotted (dots : Bool) (ts : List TypeExpr) : (dotted dots ts).map (·.1) = ts := by
  fun_induction dotted dots ts with
  | case1 | case2 => rfl
  | case3 t ts _ ih => rw [List.map_cons, ih]

theorem getLast_dotted (dots : Bool) (hts : ts ≠ []) :
    ∃ t, (dotted dots ts).getLast? = some (t, dots) := by
  fun_induction dotted dots ts with
  | case1 => exact absurd rfl hts
  | case2 t => exact ⟨t, rfl⟩
  | case3 t ts hne ih =>
    obtain ⟨last, hlast⟩ := ih hne
    refine ⟨last, ?_⟩
    rw [List.getLast?_cons, hlast]
    rfl

/-- A parameter with its dots, without its places. -/
def bareParam (param : TypeExpr × Bool) : TypeExpr × Bool := (param.1.bare, param.2)

theorem itemOf_typeParam {param : TypeExpr × Bool} (h : ReadsType g.type param.1) :
    ItemOf (typeParam g) Kind.continuesType (dottedTokens param) (bareParam · = bareParam param) := by
  obtain ⟨t, dots⟩ := param
  cases dots with
  | true =>
    refine ⟨fun next behind hnext => ?_, _, _, rfl, rfl⟩
    refine .bind (reads_accept _ (by simp)) fun found hfound => .bind (h hnext) fun a ha => .pure ?_
    rw [hfound, bareParam, ha]
    rfl
  | false =>
    refine ⟨fun next behind hnext => ?_, (itemOf_type h).head⟩
    refine .bind (reads_refuse_of_begins t.begins_tokens (by simp)) fun found hfound => ?_
    refine .bind (h hnext) fun a ha => .pure ?_
    rw [hfound, bareParam, ha]
    rfl

variable {dots : Bool}

theorem bareAll_of_dotted {params : List (TypeExpr × Bool)}
    (h : params.map bareParam = (dotted dots ts).map bareParam) :
    TypeExpr.bareAll (params.map (·.1)) = TypeExpr.bareAll ts := by
  have hfirst := congrArg (List.map (·.1)) h
  rw [List.map_map, List.map_map] at hfirst
  rw [TypeExpr.bareAll_eq_map, TypeExpr.bareAll_eq_map, List.map_map]
  have hts : ts.map TypeExpr.bare = (dotted dots ts).map (TypeExpr.bare ∘ (·.1)) := by
    rw [← List.map_map, map_dotted]
  rw [hts]
  exact hfirst

theorem getLast_of_dotted {params : List (TypeExpr × Bool)}
    (h : params.map bareParam = (dotted dots ts).map bareParam) (hdots : ts = [] → dots = false) :
    params.getLast? = none ∧ dots = false ∨ ∃ t, params.getLast? = some (t, dots) := by
  have hlast := congrArg List.getLast? h
  rw [List.getLast?_map, List.getLast?_map] at hlast
  by_cases hts : ts = []
  · rw [hts] at hlast
    exact .inl ⟨Option.map_eq_none_iff.mp hlast, hdots hts⟩
  · obtain ⟨t, ht⟩ := getLast_dotted dots hts
    rw [ht] at hlast
    obtain ⟨⟨u, v⟩, hparams, hbare⟩ := Option.map_eq_some_iff.mp hlast
    have hv : v = dots := congrArg (·.2) hbare
    exact .inr ⟨u, hv ▸ hparams⟩

/-- The parameters of a function type, up to its result. -/
theorem reads_functionType {behind' : List Kind} {Q : TypeExpr → Prop}
    (hts : ∀ a ∈ ts, ReadsType g.type a) (hdots : ts = [] → dots = false)
    (hresult : ∀ as start, TypeExpr.bareAll as = TypeExpr.bareAll ts →
      Reads (do
        let result ← afterSymbol .arrow g.type
        return .function as dots result (← spanFrom start)) (k :: ks) behind' Q) :
    Reads (typeLevel g) (.keyword .fnKw ::
      inParens (commas (dotLast dots (TypeExpr.tokensEach ts))) ++ k :: ks) behind' Q := by
  have htokens : .keyword .fnKw :: inParens (commas (dotLast dots (TypeExpr.tokensEach ts))) ++
      k :: ks = .keyword .fnKw :: .symbol .lparen ::
        (commas ((dotted dots ts).map dottedTokens) ++ .symbol .rparen :: k :: ks) := by
    simp [inParens, TypeExpr.tokensEach_eq_map, dotLast_tokens]
  rw [htokens]
  refine .here fun _ => .kind (.here fun start => .bind (reads_expectKeyword _ (by simp)) fun _ _ => ?_)
  refine .expect (by simp) ?_
  refine .bind (reads_listUntil Kind.continuesType rfl rfl rfl fun param hparam =>
    itemOf_typeParam (hts _ ?_)) fun params hparams => ?_
  · rw [← map_dotted dots ts]
    exact List.mem_map_of_mem hparam
  refine .expect (by simp) ?_
  have hdone := hresult _ start (bareAll_of_dotted hparams)
  rcases getLast_of_dotted hparams hdots with ⟨hlast, hfalse⟩ | ⟨u, hlast⟩
  · rw [hlast]
    rw [hfalse] at hdone
    exact hdone
  · rw [hlast]
    exact hdone

theorem reads_function_none (hts : ∀ a ∈ ts, ReadsType g.type a) (hdots : ts = [] → dots = false) :
    ReadsType (typeLevel g) (.function ts dots none span) := by
  intro next behind hnext
  have harrow : next.isSymbol .arrow = false := by
    simp only [Kind.continuesType, List.any_cons, Bool.or_eq_false_iff] at hnext
    exact hnext.2.1
  have hnone : Reads (afterSymbol .arrow g.type) (next :: behind) (next :: behind) (· = none) := by
    refine .pass harrow ?_
    exact .pure rfl
  refine reads_functionType hts hdots fun as start has => ?_
  refine .bind hnone fun result hresult => .spanFrom fun _ => .pure ?_
  rw [hresult]
  simp only [TypeExpr.bare, has]

theorem reads_function_some (hts : ∀ a ∈ ts, ReadsType g.type a) (hdots : ts = [] → dots = false)
    (ht : ReadsType g.type t) : ReadsType (typeLevel g) (.function ts dots (some t) span) := by
  intro next behind hnext
  have hsome : Reads (afterSymbol .arrow g.type) (.symbol .arrow :: (t.tokens ++ next :: behind))
      (next :: behind) fun result => ∃ u : TypeExpr, result = some u ∧ u.bare = t.bare := by
    refine .take (by simp) ?_
    exact .bind (ht hnext) fun u hu => .pure ⟨u, rfl, hu⟩
  have htokens : (TypeExpr.function ts dots (some t) span).tokens ++ next :: behind =
      .keyword .fnKw :: inParens (commas (dotLast dots (TypeExpr.tokensEach ts))) ++
        .symbol .arrow :: (t.tokens ++ next :: behind) := by
    simp [TypeExpr.tokens]
  rw [htokens]
  refine reads_functionType hts hdots fun as start has => ?_
  refine .bind hsome fun result hresult => .spanFrom fun _ => .pure ?_
  obtain ⟨u, rfl, hu⟩ := hresult
  simp only [TypeExpr.bare, has, hu]

end Types

end Parse

end Syntax

end JaneCheck
