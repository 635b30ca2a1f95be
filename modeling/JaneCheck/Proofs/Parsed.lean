import JaneCheck.Proofs.Tracks

/-!
# Trees that the parser builds

What is parsed from the text of a file lies within the file: the spans of its
tree come from the tokens, and these are all of the file.
-/

namespace JaneCheck.Syntax

open Token (nest_lparen nest_rparen)

instance : Placed LetName := ⟨fun P n => P n.name.span⟩
instance : Placed LoopKind := ⟨LoopKind.Within⟩
instance : Placed Stmt := ⟨Stmt.Within⟩
instance : Placed Body := ⟨fun P b => (∀ s ∈ b.stmts, s.Within P) ∧ P b.span⟩
instance : Placed (Branch Stmt) :=
  ⟨fun P b => b.cond.Within P ∧ ∀ s ∈ b.body.stmts, s.Within P⟩
instance : Placed (Case Stmt) :=
  ⟨fun P c => (∀ e ∈ c.exprs, e.Within P) ∧ ∀ s ∈ c.body.stmts, s.Within P⟩
instance : Placed TypeAlias := ⟨TypeAlias.Within⟩
instance : Placed GlobalDef := ⟨GlobalDef.Within⟩
instance : Placed Param := ⟨Param.Within⟩
instance : Placed Receiver := ⟨fun P r => P r.span⟩
instance : Placed ReturnType :=
  ⟨fun P r => (∀ t ∈ r.type, t.Within P) ∧ ∀ n ∈ r.names, P n.span⟩
instance : Placed Function := ⟨Function.Within⟩
instance : Placed Field := ⟨Field.Within⟩
instance : Placed StructDef := ⟨fun P d => P d.name.span ∧ ∀ f ∈ d.fields, f.Within P⟩
instance : Placed EnumItem := ⟨EnumItem.Within⟩
instance : Placed EnumDef := ⟨EnumDef.Within⟩
instance : Placed MethodSig := ⟨MethodSig.Within⟩
instance : Placed TraitDef := ⟨fun P d => P d.name.span ∧ ∀ m ∈ d.methods, m.Within P⟩
instance : Placed ImplBlock := ⟨ImplBlock.Within⟩
instance : Placed Item := ⟨Item.Within⟩

namespace Parse

variable {files : Nat → Prop}

/-- What the parser reads from the files lies within them. -/
abbrev Sound [Placed α] (files : Nat → Prop) (p : Parse α) : Prop := Stays (.whole files) p

theorem sound_advance : Sound files advance := by
  intro x c a c' hc he
  cases he
  exact ⟨trivial, hc.advance⟩

theorem sound_type : Sound files type :=
  fun _ => .rounds fun n => .of (stays_levels _ (n + 1)).type

theorem sound_expr : Sound files expr :=
  fun _ => .rounds fun n => .of ((stays_levels _ (n + 1)).expr 0)

theorem sound_exprs : Sound files exprs := stays_commaList sound_expr

theorem sound_condition : Sound files condition := stays_withLiterals _ sound_expr

/-! ## Statements -/

theorem sound_typeAlias : Sound files typeAlias := by
  refine fun _ => .here fun start hs => .expectKeyword ?_
  refine .after stays_ident fun name hname => .expect rfl ?_
  exact .after sound_type fun t ht => .spanned hs fun _ _ => ⟨hname, ht⟩

theorem sound_globalDef : Sound files globalDef := by
  refine fun _ => .here fun start hs => .kind fun k => ?_
  extract_lets constant rest
  have hrest : ∀ b, Sound files (rest b) := by
    intro b
    refine fun _ => .after stays_ident fun name hn => ?_
    refine .after (stays_afterSymbol (fun _ => rfl) sound_type) fun t ht => ?_
    refine .expect rfl (.after sound_expr fun e he => ?_)
    exact .spanned hs fun _ hp => ⟨hn, ht, he, hp⟩
  refine .after sound_advance fun _ _ => ?_
  split
  · exact .bind (.pure trivial) fun b _ => .of (hrest b)
  · exact .acceptKeyword fun b => .of (hrest b)

theorem sound_letName : Sound files letName :=
  fun _ => .acceptKeyword fun _ => .after stays_ident fun _ hn => .pure hn

theorem sound_letStmt : Sound files letStmt := by
  refine fun x => .here fun start hs => .expectKeyword (.acceptOpen (nest_lparen x) ?_ ?_)
  · refine .after (stays_commaList sound_letName) fun _ hns => .expect (nest_rparen x) ?_
    refine .expect rfl (.after sound_exprs fun es hes => ?_)
    exact .spanned hs fun _ hp => .declareMany hes hns hp
  · refine .after sound_letName fun name hn => ?_
    refine .after (stays_afterSymbol (fun _ => rfl) sound_type) fun t ht => ?_
    refine .after (stays_afterSymbol (fun _ => rfl) sound_expr) fun e he => ?_
    exact .spanned hs fun _ hp => .declare ht he hn hp

theorem sound_constStmt : Sound files constStmt :=
  fun _ => .after sound_globalDef fun _ hd =>
    .pure (.declare hd.type (by rintro _ ⟨⟩; exact hd.value) hd.name hd.place)

theorem sound_returnStmt : Sound files returnStmt := by
  refine fun _ => .here fun start hs => .expectKeyword ?_
  refine .kind fun k => ?_
  extract_lets bare rest
  have hrest : ∀ es, (∀ e ∈ es, e.Within (files ·.file)) → Sound files (rest es) := fun es hes _ =>
    .spanned hs fun _ hp => .ret hes hp
  split
  · exact .bind (.pure within_nil) fun es hes => .of (hrest es hes)
  · exact .after sound_exprs fun es hes => .of (hrest es hes)

theorem sound_jumpLabel : Sound files jumpLabel := by
  refine fun _ => .peek fun _ => .kind fun _ => ?_
  split
  · exact .after stays_ident fun name hn => .pure (by rintro _ ⟨⟩; exact hn)
  · exact .pure (by rintro _ ⟨⟩)

theorem sound_exprStmt : Sound files exprStmt := by
  refine fun _ => .here fun start hs => .after sound_exprs fun es hes => ?_
  refine .kind fun k => ?_
  split
  · refine .after sound_advance fun _ _ => .after sound_exprs fun vs hvs => ?_
    exact .spanned hs fun _ hp => .assign hes hvs hp
  split
  next e =>
    have he := hes e (by simp)
    refine .accept rfl fun up => ?_
    split
    · exact .spanned hs fun _ hp => .step he hp
    refine .accept rfl fun down => ?_
    split
    · exact .spanned hs fun _ hp => .step he hp
    · exact .pure (.expr he)
  next => exact builds_unexpected _

section Blocks

variable {block : Parse Body} (hb : Sound files block)

include hb

theorem sound_branchRounds (n : Nat) : Sound files (branchRounds block n) := by
  induction n with
  | zero => exact fun _ => .pure ⟨within_nil, by rintro _ ⟨⟩⟩
  | succ n ih =>
    refine fun _ => .after sound_condition fun cond hc => .after hb fun body hbody => ?_
    have hfirst : Placed.Within (files ·.file) [(⟨cond, body⟩ : Branch Stmt)] :=
      within_cons ⟨hc, hbody.1⟩ within_nil
    refine .acceptKeyword fun isElse => ?_
    split
    · refine .acceptKeyword fun isIf => ?_
      split
      · exact .after ih fun r hr => .pure ⟨within_cons ⟨hc, hbody.1⟩ hr.1, hr.2⟩
      · exact .after hb fun b hb' => .pure ⟨hfirst, by rintro _ ⟨⟩; exact hb'⟩
    · exact .pure ⟨hfirst, by rintro _ ⟨⟩⟩

theorem sound_ifStmt : Sound files (ifStmt block) := by
  refine fun _ => .here fun start hs => .expectKeyword ?_
  refine .rounds fun n => .after (sound_branchRounds hb n) fun r hr => ?_
  refine .spanned hs fun _ _ => ?_
  exact .branch (fun b h => (hr.1 b h).1) (fun b h => (hr.1 b h).2) fun b h => (hr.2 b h).1

omit hb in
theorem sound_loopKind : Sound files loopKind := by
  refine fun _ => .acceptKeyword fun isWhile => ?_
  split
  · exact .after sound_condition fun e he => .pure (.whileTrue he)
  refine .acceptKeyword fun isFor => ?_
  split
  · refine .after (stays_commaList stays_ident) fun _ hvs => .expectKeyword ?_
    exact .after sound_condition fun e he => .pure (.forEach he hvs)
  · exact .expectKeyword (.pure .forever)

theorem sound_loopStmt : Sound files (loopStmt block) :=
  fun _ => .here fun _ hs => .after sound_loopKind fun _ hk => .after hb fun _ hbody =>
    .spanned hs fun _ _ => .loop hk hbody.1

theorem sound_matchArm : Sound files (matchArm block) := by
  refine fun _ => .here fun start hs => .kind fun k => ?_
  extract_lets isDefault rest
  have hrest : ∀ es, (∀ e ∈ es, e.Within (files ·.file)) → Sound files (rest es) := by
    intro es hes
    refine fun _ => .expect rfl (.after hb fun body hbody => ?_)
    refine .spanFrom hs fun _ _ => .accept rfl fun _ => ?_
    exact .pure ⟨hes, hbody.1⟩
  refine .peek fun _ => ?_
  split
  · exact .after sound_advance fun _ _ => .bind (.pure within_nil) fun es hes => .of (hrest es hes)
  · exact .after (stays_withLiterals _ sound_exprs) fun es hes => .of (hrest es hes)

theorem sound_matchStmt : Sound files (matchStmt block) := by
  refine fun _ => .here fun start hs => .expectKeyword ?_
  refine .at fun bare => ?_
  extract_lets rest
  have hrest : ∀ e : Option Expr, (∀ e' ∈ e, e'.Within (files ·.file)) →
      Sound files (rest e) := by
    intro e he
    refine fun _ => .expect rfl ?_
    refine .after (stays_repeatUntil _ (sound_matchArm hb)) fun arms harms => ?_
    refine .expect rfl (.spanned hs fun _ _ => ?_)
    have hcase : ∀ c ∈ arms.filter fun arm => !arm.exprs.isEmpty, c ∈ arms :=
      fun c hc => (List.mem_filter.mp hc).1
    have hlast : ∀ c ∈ (arms.filter fun arm => arm.exprs.isEmpty).getLast?, c ∈ arms :=
      fun c hc => (List.mem_filter.mp (List.mem_of_getLast? hc)).1
    exact .select he (fun c hc => (harms c (hcase c hc)).1) (fun c hc => (harms c (hcase c hc)).2)
      (fun c hc => (harms c (hlast c hc)).1) (fun c hc => (harms c (hlast c hc)).2)
  split
  · exact .bind (.pure (by rintro _ ⟨⟩)) fun e he => .of (hrest e he)
  · refine .bind (.map (.of sound_condition) fun e he => ?_) fun e he => .of (hrest e he)
    rintro _ ⟨⟩
    exact he

theorem sound_stmt : Sound files (stmt block) := by
  refine fun _ => .here fun start hs => .kind fun k => ?_
  split
  · exact .of sound_letStmt
  · exact .of sound_constStmt
  · exact .of sound_returnStmt
  · exact .of (sound_ifStmt hb)
  · exact .of (sound_loopStmt hb)
  · exact .of (sound_loopStmt hb)
  · exact .of (sound_loopStmt hb)
  · exact .of (sound_matchStmt hb)
  · exact .after sound_advance fun _ _ => .after sound_jumpLabel fun _ hl =>
      .spanned hs fun _ hp => .leave hl hp
  · exact .after sound_advance fun _ _ => .after sound_jumpLabel fun _ hl =>
      .spanned hs fun _ hp => .again hl hp
  · exact .after sound_advance fun _ _ => .after stays_ident fun _ _ =>
      .spanned hs fun _ hp => .goto hp
  · exact .after sound_advance fun _ _ => .pure (.fallthrough hs)
  · exact .after hb fun _ hbody => .pure (.block hbody.1)
  · exact .after hb fun _ hbody => .pure (.block hbody.1)
  · exact .after sound_typeAlias fun _ ha => .pure (.typeAlias ha)
  · refine .peek fun _ => ?_
    split
    · exact .after stays_ident fun _ _ => .after sound_advance fun _ _ =>
        .spanned hs fun _ hp => .label hp
    · exact .of sound_exprStmt
  · exact .of sound_exprStmt

theorem sound_stmtRounds (n : Nat) : Sound files (stmtRounds block n) := by
  induction n with
  | zero => exact fun _ => .pure within_nil
  | succ n ih =>
    refine fun _ => .kind fun k => ?_
    split
    · exact .pure within_nil
    refine .accept rfl fun found => ?_
    split
    · exact .of ih
    · exact .after (sound_stmt hb) fun s hs => .after ih fun ss hss => .pure (within_cons hs hss)

theorem sound_blockLevel : Sound files (blockLevel block) := by
  refine fun _ => .here fun start hs => .acceptKeyword fun _ => ?_
  refine .expect rfl ?_
  refine .after (stays_withLiterals _ fun _ => .rounds fun n => .of (sound_stmtRounds hb n))
    fun stmts hstmts => ?_
  exact .expect rfl (.spanned hs fun _ hp => ⟨hstmts, hp⟩)

end Blocks

theorem sound_blockAt (n : Nat) : Sound files (blockAt n) := by
  induction n with
  | zero => exact fun _ => builds_unexpected _
  | succ n ih => exact sound_blockLevel ih

theorem sound_block : Sound files block := fun _ => .rounds fun n => .of (sound_blockAt n)

/-! ## Items -/

theorem sound_genericParams : Sound files genericParams := by
  refine fun _ => .accept rfl fun found => ?_
  split
  · exact .after (stays_commaList stays_ident) fun names hn => .expect rfl (.pure hn)
  · exact .pure within_nil

theorem sound_receiver : Sound files receiver := by
  refine fun _ => .here fun start hs => .acceptKeyword fun found => ?_
  split
  · exact .pure (by rintro _ ⟨⟩; exact hs)
  refine .at fun _ => .peek fun _ => ?_
  split
  · exact .after sound_advance fun _ _ => .after sound_advance fun _ _ =>
      .spanned hs fun _ hp => by rintro _ ⟨⟩; exact hp
  · exact .pure (by rintro _ ⟨⟩)

theorem sound_param : Sound files param := by
  refine fun _ => .here fun start hs => .acceptKeyword fun _ => ?_
  refine .accept rfl fun _ => .after stays_ident fun _ hn => ?_
  refine .expect rfl (.after sound_type fun t ht => ?_)
  refine .after (stays_afterSymbol (fun _ => rfl) sound_expr) fun e he => ?_
  exact .spanned hs fun _ hp => ⟨hn, ht, he, hp⟩

theorem sound_params : Sound files params := by
  refine fun x => .expect (nest_lparen x) (.after sound_receiver fun r hr => ?_)
  extract_lets close more
  have hclose : ∀ ps : List Param, (∀ p ∈ ps, p.Within (files ·.file)) →
      Builds files ((Track.whole files).holds (x + 1)) (close ps) ((Track.whole files).holds x) :=
    fun ps hps => .expect (nest_rparen x) (.pure ⟨hr, hps⟩)
  have hmore : ∀ b, Builds files ((Track.whole files).holds (x + 1)) (more b)
      ((Track.whole files).holds x) := by
    intro b
    unfold more
    split
    · exact .after (stays_listUntil _ sound_param) hclose
    · exact .bind (.pure within_nil) hclose
  split
  · exact .accept rfl hmore
  · exact .bind (.pure trivial) fun b _ => hmore b

theorem sound_namedResult : Sound files namedResult :=
  fun _ => .after stays_ident fun _ hn => .expect rfl (.after sound_type fun _ ht => .pure ⟨hn, ht⟩)

theorem sound_returnType : Sound files returnType := by
  refine fun x => .accept rfl fun found => ?_
  split
  next =>
    refine .look fun c => .forget ?_
    extract_lets isNamed
    split
    next =>
      refine .here fun start hs => .expect (nest_lparen x) ?_
      refine .after (stays_commaList sound_namedResult) fun rs hrs => ?_
      refine .expect (nest_rparen x) (.spanned hs fun sp hp => ⟨?_, ?_⟩)
      · rintro t ⟨⟩
        split
        next name t => exact (hrs (name, t) (by simp)).2
        next =>
          refine .tuple hp fun t ht => ?_
          obtain ⟨r, hr, rfl⟩ := List.mem_map.mp ht
          exact (hrs r hr).2
      · intro n hn
        obtain ⟨r, hr, rfl⟩ := List.mem_map.mp hn
        exact (hrs r hr).1
    next => exact .after sound_type fun t ht => .pure ⟨by rintro _ ⟨⟩; exact ht, within_nil⟩
  next => exact .pure ⟨by rintro _ ⟨⟩, within_nil⟩

theorem sound_function : Sound files function := by
  refine fun _ => .here fun start hs => .acceptKeyword fun _ => ?_
  refine .expectKeyword (.after stays_ident fun name hn => ?_)
  refine .after sound_genericParams fun gs hgs => .after sound_params fun ps hps => ?_
  refine .after sound_returnType fun r hr => .after sound_block fun b hb => ?_
  exact .spanned hs fun _ _ => ⟨hn, hgs, hps.1, hps.2, hr.1, hr.2, hb.1, hb.2⟩

theorem sound_structField : Sound files structField := by
  refine fun _ => .here fun start hs => .after stays_ident fun name hn => ?_
  refine .expect rfl (.after sound_type fun t ht => ?_)
  refine .after (stays_afterSymbol (fun _ => rfl) sound_expr) fun e he => .spanFrom hs fun _ _ => ?_
  refine .accept rfl fun found => ?_
  split
  · exact .pure ⟨hn, ht, he⟩
  · exact .accept rfl fun _ => .pure ⟨hn, ht, he⟩

theorem sound_structDef : Sound files structDef := by
  refine fun _ => .here fun start hs => .expectKeyword ?_
  refine .after stays_ident fun name hn => .after sound_genericParams fun _ _ => ?_
  refine .expect rfl ?_
  refine .after (stays_repeatUntil _ sound_structField) fun fs hfs => ?_
  exact .expect rfl (.spanned hs fun _ _ => ⟨hn, hfs⟩)

theorem sound_enumItem : Sound files enumItem :=
  fun _ => .here fun _ hs => .after stays_ident fun _ hn =>
    .after (stays_afterSymbol (fun _ => rfl) sound_expr) fun _ he => .spanned hs fun _ _ => ⟨hn, he⟩

theorem sound_enumDef : Sound files enumDef := by
  refine fun _ => .here fun start hs => .expectKeyword ?_
  refine .after stays_ident fun _ hn => ?_
  refine .after (stays_afterSymbol (fun _ => rfl) sound_type) fun t ht => ?_
  refine .expect rfl ?_
  refine .after (stays_listUntil _ sound_enumItem) fun is his => ?_
  exact .expect rfl (.spanned hs fun _ _ => ⟨hn, ht, his⟩)

theorem sound_methodSig : Sound files methodSig := by
  refine fun _ => .here fun start hs => .expectKeyword ?_
  refine .after stays_ident fun name hn => .after sound_params fun ps hps => ?_
  refine .after sound_returnType fun r hr => .spanFrom hs fun _ _ => ?_
  exact .accept rfl fun _ => .pure ⟨hn, hps.2, hr.1⟩

theorem sound_traitDef : Sound files traitDef := by
  refine fun _ => .here fun start hs => .expectKeyword ?_
  refine .after stays_ident fun _ hn => .expect rfl ?_
  refine .after (stays_repeatUntil _ sound_methodSig) fun ms hms => ?_
  exact .expect rfl (.spanned hs fun _ _ => ⟨hn, hms⟩)

theorem sound_implBlock : Sound files implBlock := by
  refine fun _ => .here fun start hs => .expectKeyword ?_
  refine .after stays_ident fun first hf => .acceptKeyword fun isTrait => ?_
  extract_lets rest
  have hrest : ∀ names : Ident × Option Ident, Placed.Within (files ·.file) names →
      Sound files (rest names) := by
    intro names hnames
    refine fun _ => .expect rfl ?_
    refine .after (stays_repeatUntil _ sound_function) fun fs hfs => ?_
    exact .expect rfl (.spanned hs fun _ hp => ⟨hnames.1, hnames.2, hfs, hp⟩)
  split
  · refine .after stays_ident fun target ht => ?_
    refine .bind (.pure ?_) fun names hnames => .of (hrest names hnames)
    exact ⟨ht, by rintro _ ⟨⟩; exact hf⟩
  · refine .bind (.pure ?_) fun names hnames => .of (hrest names hnames)
    exact ⟨hf, by rintro _ ⟨⟩⟩

theorem sound_item : Sound files item := by
  refine fun _ => .kind fun k => ?_
  split
  · exact .after sound_function fun _ h => .pure (.function h)
  · exact .after sound_function fun _ h => .pure (.function h)
  · exact .after sound_structDef fun _ h => .pure (.struct h.1 h.2)
  · exact .after sound_enumDef fun _ h => .pure (.enum h)
  · exact .after sound_traitDef fun _ h => .pure (.trait h.1 h.2)
  · exact .after sound_implBlock fun _ h => .pure (.impl h)
  · exact .after sound_typeAlias fun _ h => .pure (.typeAlias h)
  · exact .after sound_globalDef fun _ h => .pure (.global h)
  · exact .after sound_globalDef fun _ h => .pure (.global h)
  · exact builds_unexpected _

theorem sound_itemRounds (n : Nat) : Sound files (itemRounds n) := by
  induction n with
  | zero => exact fun _ => .pure within_nil
  | succ n ih =>
    refine fun _ => .kind fun k => ?_
    split
    · exact .pure within_nil
    refine .accept rfl fun found => ?_
    split
    · exact .of ih
    · exact .after sound_item fun i hi => .after ih fun is his => .pure (within_cons hi his)

theorem sound_program : Sound files program := fun _ => .rounds fun n => .of (sound_itemRounds n)

end Parse

/-! ## Files -/

theorem readFrom_file {file : Nat} {cs : List Char} {i : Nat} {tokens : List Token}
    (h : Token.readFrom file cs i = .ok tokens) :
    tokens ≠ [] ∧ ∀ t ∈ tokens, t.span.file = file := by
  fun_induction Token.readFrom file cs i generalizing tokens with
  | case1 => cases h
  | case2 i j hg =>
    cases h
    simp
  | case3 => cases h
  | case4 cs i c rest j hg kind n hr ih =>
    cases hrest : Token.readFrom file (rest.drop n) (j + 1 + n) with
    | error e => rw [hrest] at h; cases h
    | ok ts =>
      rw [hrest] at h
      cases h
      obtain ⟨-, hts⟩ := ih hrest
      simpa using hts

theorem of_ofTokens {files : Nat → Prop} {tokens : List Token} (hne : tokens ≠ [])
    (h : ∀ t ∈ tokens, files t.span.file) : (Cursor.ofTokens tokens).Of files := by
  cases tokens with
  | nil => exact absurd rfl hne
  | cons t ts =>
    have ht : files t.span.file := h t (by simp)
    exact ⟨ht, ht, fun u hu => h u (List.mem_cons_of_mem t hu)⟩

/-- What is parsed from a file lies within it, and so within all files of which
it is one. -/
theorem parse_within (files : Nat → Prop) {file : Nat} {text : String} {program : Program}
    (hf : files file) (h : parse file text = .ok program) :
    ∀ i ∈ program, i.Within (files ·.file) := by
  unfold parse at h
  cases ht : Token.readAll file text with
  | error e => rw [ht] at h; cases h
  | ok tokens =>
    rw [ht] at h
    obtain ⟨hne, hfile⟩ := readFrom_file ht
    have hfiles : ∀ t ∈ tokens, files t.span.file := fun t h => (hfile t h).symm ▸ hf
    replace h : parseTokens tokens = .ok program := h
    unfold parseTokens at h
    cases hr : Parse.program.run (Cursor.ofTokens tokens) with
    | error e => rw [hr] at h; cases h
    | ok r =>
      rw [hr] at h
      cases h
      exact (Parse.sound_program 0 (of_ofTokens hne hfiles) hr).1

end JaneCheck.Syntax
