import JaneCheck.Check.Definition
import JaneCheck.Proofs.Kinds
import JaneCheck.Proofs.Pinning

/-!
# Values of enum items

The items of an enum are counted up: an item without a value has the number
after that of the item before it. `Counts` says how the entries come about, one
rule for each thing that can happen to an item, and `counts_itemsFrom` that the
loop over the items follows these rules when it reports nothing.

A constant that an integer type accepts is a number (`isNumeric_of_check`), so
what is cut to the type lies in its range. The number after the greatest word is
zero, which every type accepts.
-/

namespace JaneCheck

/-! ## What an integer type accepts -/

variable {t : Ty} {c : Const}

namespace Ty

theorem eq_base_of_integer (hpure : t.isPure = true) (hinteger : t.category.isInteger = true) :
    t = .base t.category := by
  cases t with
  | base c => rfl
  | pointer | reference => cases hpure
  | _ => cases hinteger

theorem kind_ne_of_lead {c : Category} {m : Char} {u : Ty} (hc : c.isInteger = true)
    (h : u.lead = some m) : (Ty.base c).kind ≠ u.kind := by
  intro he
  obtain ⟨cs, hcs⟩ := chars_of_lead_some h
  have hchars : c.name.toList = m :: cs := hcs ▸ congrArg String.toList he
  have hm : m ∈ ['*', '&', '[', '('] := by
    cases u <;> cases h <;> decide
  have hname : c.name.toList.head? ∈ [some 'i', some 'u'] := by
    revert hc
    cases c <;> decide
  rw [hchars] at hname
  revert hm
  simp only [List.mem_cons, List.not_mem_nil, List.head?_cons, Option.some.injEq, or_false] at hname
  rcases hname with rfl | rfl <;> decide

end Ty

theorem Category.isInteger_of_accepts {ws : WordSize} {ignoreAny : Bool} {c d : Category}
    (hc : c.isInteger = true) (h : accepts ws ignoreAny c d = true) : d.isInteger = true := by
  revert h hc
  cases c <;> cases ws <;> cases ignoreAny <;> cases d <;> decide

namespace Compat

variable {k : Compat} {c : Category} {u : Ty}

theorem shape_of_integer (hc : c.isInteger = true) :
    (Ty.base c).isNil = false ∧ (Ty.base c).isNilCompatible = false ∧
      (Ty.base c).isEnum = false ∧ (Ty.base c).isStruct = false ∧ (Ty.base c).isTuple = false := by
  revert hc
  cases c <;> decide

/-- What is no pointer and no container is compared by its category. -/
theorem isInteger_of_plain (hc : c.isInteger = true) (hpointer : u.isPointer = false)
    (hslice : u.isSlice = false) (harray : u.isArray = false) (hmap : u.isMap = false)
    (h : k.plain (.base c) u = true) : u.category.isInteger = true := by
  obtain ⟨hnil, hcompat, henum, hstruct, htuple⟩ := shape_of_integer hc
  have hsame (he : (Ty.base c == u) = true) : u.category.isInteger = true := by
    have hcategory : c = u.category := eq_of_beq (Bool.and_eq_true_iff.mp he).1
    rwa [← hcategory]
  simp only [plain, hpointer, hslice, harray, hmap, hcompat, henum, hstruct, htuple, hnil,
    show (Ty.base c).isPointer = false from rfl, show (Ty.base c).isSlice = false from rfl,
    show (Ty.base c).isArray = false from rfl, show (Ty.base c).isMap = false from rfl,
    Bool.or_self, Bool.false_or, Bool.false_eq_true, if_false] at h
  split at h
  · cases h
  split at h
  · exact hsame h
  split at h
  · cases h
  split at h
  · exact hsame h
  · exact Category.isInteger_of_accepts hc h

theorem isNumber_of_plain (hc : c.isInteger = true) (href : u.isReference = false)
    (h : k.plain (.base c) u = true) : u.isNumber = true := by
  have hnil : (Ty.base c).isNil = false := (shape_of_integer hc).1
  have hkind {m : Char} (hu : u.lead = some m) : (u.kind == (Ty.base c).kind) = false :=
    beq_eq_false_iff_ne.mpr (Ty.kind_ne_of_lead hc hu).symm
  cases u with
  | pointer t => simp [plain, pointers, Ty.isPointer, hnil, hkind rfl] at h
  | reference t => cases href
  | slice t => simp [plain, Ty.isPointer, Ty.isSlice, hnil, hkind rfl] at h
  | array t n => cases h
  | map x y => simp [plain, Ty.isPointer, Ty.isSlice, Ty.isArray, Ty.isMap, hnil, hkind rfl] at h
  | base d =>
    have hd : d.isInteger = true := isInteger_of_plain hc rfl rfl rfl rfl h
    revert hd
    cases d <;> decide
  | _ =>
    cases isInteger_of_plain hc rfl rfl rfl rfl h

theorem isNumber_of_check (hc : c.isInteger = true) (h : k.check (.base c) u = .compatible) :
    u.isNumber = true := by
  have htrait : (Ty.base c).isTrait = false := by
    revert hc
    cases c <;> decide
  obtain ⟨hnil, -, -, hstruct, -⟩ := shape_of_integer hc
  unfold check at h
  simp only [htrait, Bool.false_or, Bool.not_false, Bool.and_true] at h
  split at h
  next =>
    simp only [traits, hnil, show (Ty.base c).isReference = false from rfl, hstruct,
      htrait, Bool.false_eq_true, if_false, Bool.false_and] at h
    split at h <;> cases h
  next =>
  split at h
  next href =>
    obtain ⟨t, rfl⟩ : ∃ t, u = .reference t := by
      cases u <;> first | exact ⟨_, rfl⟩ | cases href
    simp [Compatibility.ofBool, Ty.kind_ne_of_lead hc (u := .reference t) rfl] at h
  next href =>
    refine isNumber_of_plain (k := k) hc (by simpa using href) ?_
    unfold Compatibility.ofBool at h
    split at h
    · assumption
    · cases h

end Compat

namespace Assign

variable {k : Assign} {t u : Ty} {v : Value} {c : Const}

theorem isNumber_of_typeProblems (hpure : t.isPure = true) (hinteger : t.category.isInteger = true)
    (h : k.typeProblems t u = []) : u.isNumber = true := by
  rw [Ty.eq_base_of_integer hpure hinteger] at h
  generalize t.category = c at hinteger h
  have hany : (Ty.base c).isAny = false := by
    revert hinteger
    cases c <;> decide
  have htuple : (Ty.base c).isTuple = false := (Compat.shape_of_integer hinteger).2.2.2.2
  simp only [typeProblems, coreProblems, verdict, hany, htuple, Bool.and_false, Bool.false_and,
    Bool.false_or, Bool.false_eq_true, if_false] at h
  split at h
  · cases h
  split at h
  · cases h
  unfold compatProblems at h
  split at h
  next hcheck => exact Compat.isNumber_of_check hinteger hcheck
  next => cases h
  next => cases h

/-- A constant that an integer type accepts is a number. -/
theorem isNumeric_of_check (hpure : t.isPure = true) (hinteger : t.category.isInteger = true)
    (hc : v.constant = some c) (h : k.check t v = []) : c.isNumeric = true := by
  have hfloat := Category.isFloat_of_integer hinteger
  unfold check at h
  split at h
  · cases h
  cases hnumber : v.type.isNumber with
  | true =>
    have hrange : inRange? k.wordSize t v = some (fitsInteger k.wordSize t.category c) := by
      simp [inRange?, hc, hpure, hnumber, hfloat, hinteger]
    rw [hrange] at h
    cases c with
    | int | uint | float => rfl
    | bool | text => simp [fitsInteger] at h
  | false =>
    have hrange : inRange? k.wordSize t v = none := by simp [inRange?, hc, hnumber]
    rw [hrange] at h
    rw [isNumber_of_typeProblems hpure hinteger h] at hnumber
    cases hnumber

end Assign

/-- A number that is cut to an integer type is an integer of its range. -/
theorem Const.exists_number_pin (ws : WordSize) (hpure : t.isPure = true)
    (hinteger : t.category.isInteger = true) (hc : c.isNumeric = true) :
    ∃ x, (c.pin ws t).number? = some x ∧ t.category.Holds ws x := by
  have hnumber : t.isNumber = true := by
    simp [Ty.isNumber, hpure, Category.isNumeric, hinteger]
  have hfloat := Category.isFloat_of_integer hinteger
  have hsome : ∃ x, (c.pin ws t).number? = some x := by
    rcases Category.signed_or_unsigned hinteger with hs | ⟨-, hu⟩
    · have hunsigned : t.category.isUnsigned = false := by
        revert hs
        cases t.category <;> decide
      simp [pin, castTo, number?, hnumber, hc, hfloat, hunsigned, hs]
    · simp [pin, castTo, number?, hnumber, hc, hfloat, hu]
  obtain ⟨x, hx⟩ := hsome
  exact ⟨x, hx, fits_pin ws t c hpure hinteger x hx⟩

/-! ## Counting -/

namespace Check

open Syntax (EnumDef EnumItem Expr)

/-- The number after `x`. The greatest word is followed by zero. -/
def following (x : Int) : Int := if x = 18446744073709551615 then 0 else x + 1

theorem number?_successor {x : Int} (h : c.number? = some x) :
    (successor c).number? = some (following x) := by
  cases c with
  | int n =>
    cases h
    have hhigh := n.toInt_lt
    have hlow := n.le_toInt
    have hfollowing : following n.toInt = n.toInt + 1 := if_neg (by omega)
    rw [hfollowing]
    by_cases hlt : n.toInt + 1 < 9223372036854775808
    · rw [successor, if_pos hlt]
      refine congrArg some ?_
      rw [Int64.toInt_add, Int64.toInt_one]
      exact Int.bmod_eq_of_le (by omega) (by omega)
    · have hmax : n = 9223372036854775807 := Int64.toInt_inj.mp (by
        rw [show (9223372036854775807 : Int64).toInt = 9223372036854775807 from by decide]
        omega)
      subst hmax
      decide
  | uint n =>
    cases h
    have hlt := n.toNat_lt
    refine congrArg some ?_
    rw [UInt64.toNat_add]
    simp only [following, UInt64.toNat_one]
    split <;> omega
  | _ => cases h

/-- The number for an item without a value after the given ones: zero, or the one that follows
the last. -/
def numberAfter (known : List (String × Const)) : Option Int :=
  match known.getLast? with
  | none => some 0
  | some (_, c) => c.number?.map following

theorem numberAfter_concat (known : List (String × Const)) (name : String) (c : Const) :
    numberAfter (known ++ [(name, c)]) = c.number?.map following := by
  simp [numberAfter]

/-- How the entries of some items come about after those in `known`. An item is lost only where
`lossy` holds, and if it states a value. -/
inductive Counts (ws : WordSize) (base : Ty) (lossy : Prop) :
    List (String × Const) → List EnumItem → List (String × Const) → Prop
  | nil {known} : Counts ws base lossy known [] known
  | cons {known item items entries c x} (hnew : item.name.name ∉ known.map Prod.fst)
      (hx : c.number? = some x) (hholds : base.category.Holds ws x)
      (himplied : item.value = none → numberAfter known = some x)
      (rest : Counts ws base lossy (known ++ [(item.name.name, c)]) items entries) :
      Counts ws base lossy known (item :: items) entries
  | lost {known item items entries} (h : lossy) (hstated : item.value ≠ none)
      (rest : Counts ws base lossy known items entries) :
      Counts ws base lossy known (item :: items) entries

namespace Counts

variable {ws : WordSize} {base : Ty} {lossy lossy' : Prop} {known entries : List (String × Const)}
  {items : List EnumItem}

theorem imp (hlossy : lossy → lossy') (h : Counts ws base lossy known items entries) :
    Counts ws base lossy' known items entries := by
  induction h with
  | nil => exact .nil
  | cons hnew hx hholds himplied _ ih => exact .cons hnew hx hholds himplied ih
  | lost h hstated _ ih => exact .lost (hlossy h) hstated ih

theorem nodup (h : Counts ws base lossy known items entries) (hknown : (known.map Prod.fst).Nodup) :
    (entries.map Prod.fst).Nodup := by
  induction h with
  | nil => exact hknown
  | cons hnew _ _ _ _ ih =>
    apply ih
    rw [List.map_append, List.nodup_append]
    refine ⟨hknown, List.pairwise_singleton _ _, fun a ha b hb he => ?_⟩
    rw [he, List.mem_singleton.mp hb] at ha
    exact hnew ha
  | lost _ _ _ ih => exact ih hknown

theorem holds (h : Counts ws base lossy known items entries)
    (hknown : ∀ entry ∈ known, ∃ x, entry.2.number? = some x ∧ base.category.Holds ws x) :
    ∀ entry ∈ entries, ∃ x, entry.2.number? = some x ∧ base.category.Holds ws x := by
  induction h with
  | nil => exact hknown
  | cons _ hx hholds _ _ ih =>
    refine ih fun entry hentry => ?_
    rcases List.mem_append.mp hentry with hentry | hentry
    · exact hknown entry hentry
    · rw [List.mem_singleton.mp hentry]
      exact ⟨_, hx, hholds⟩
  | lost _ _ _ ih => exact ih hknown

/-- The items that are kept, side by side with their entries. -/
theorem exists_kept (h : Counts ws base lossy known items entries) :
    ∃ kept new, entries = known ++ new ∧ kept.Sublist items ∧ (kept = items ∨ lossy) ∧
      (∀ item ∈ items, item.value = none → item ∈ kept) ∧
      new.map Prod.fst = kept.map (·.name.name) ∧
      ∀ (i : Nat) (item : EnumItem) (entry : String × Const), kept[i]? = some item →
        new[i]? = some entry → item.value = none →
        entry.2.number? = numberAfter (known ++ new.take i) := by
  induction h with
  | nil => exact ⟨[], [], by simp, .slnil, .inl rfl, by simp, rfl, by simp⟩
  | @cons known item items entries c x hnew hx hholds himplied _ ih =>
    obtain ⟨kept, new, rfl, hsub, hall, himplied', hnames, hcount⟩ := ih
    refine ⟨item :: kept, (item.name.name, c) :: new, by simp, hsub.cons_cons item,
      hall.imp (congrArg _) id, fun item' hitem hvalue => ?_, by simp [hnames],
      fun i item' entry hitem hentry hvalue => ?_⟩
    · rcases List.mem_cons.mp hitem with rfl | hitem
      · exact List.mem_cons_self
      · exact List.mem_cons_of_mem _ (himplied' item' hitem hvalue)
    cases i with
    | zero =>
      cases hitem
      cases hentry
      simp [hx, himplied hvalue]
    | succ i => simpa using hcount i item' entry hitem hentry hvalue
  | @lost known item items entries h hstated _ ih =>
    obtain ⟨kept, new, he, hsub, -, himplied, hnames, hcount⟩ := ih
    refine ⟨kept, new, he, hsub.cons item, .inr h, fun item' hitem hvalue => ?_, hnames, hcount⟩
    rcases List.mem_cons.mp hitem with rfl | hitem
    · exact absurd hvalue hstated
    · exact himplied item' hitem hvalue

end Counts

/-! ## Silent runs -/

section Runs

variable {env : Env} {s s' : State} {base : Ty}

theorem run_bind_silent {x : Check α} {f : α → Check β} {b : β}
    (h : ((x >>= f) env).run s = some (b, s')) (hsilent : s.added s' = []) :
    ∃ a s1, (x env).run s = some (a, s1) ∧ s.added s1 = [] ∧
      (f a env).run s1 = some (b, s') ∧ s1.added s' = [] := by
  obtain ⟨a, s1, hx, hf⟩ := run_bind.mp h
  rw [State.added_trans ((x env).le hx) ((f a env).le hf), List.append_eq_nil_iff] at hsilent
  exact ⟨a, s1, hx, hsilent.1, hf, hsilent.2⟩

variable {span : Span} {next : Const}

theorem not_silent_report {q : Problem} {a : Unit} (h : (report q span env).run s = some (a, s')) :
    s.added s' ≠ [] :=
  List.ne_nil_of_mem (mem_added_report h)

theorem added_reportAll {ps : List Problem} {a : Unit}
    (h : (reportAll ps span env).run s = some (a, s')) :
    s.added s' = ps.map fun q => Diagnostic.mk q span := by
  cases h
  simp [State.added, ← Array.length_toList]

theorem run_assign_silent {v : Value} {ok : Bool} (h : (assign t v span env).run s = some (ok, s'))
    (hsilent : s.added s' = []) : ok = true ∧ ∃ k : Assign, k.check t v = [] := by
  obtain ⟨setting, _, hsetting, h⟩ := run_bind.mp h
  cases hsetting
  rw [assignBy_eq] at h
  obtain ⟨⟨⟩, s1, hreport, h⟩ := run_bind.mp h
  cases h
  rw [added_reportAll hreport, List.map_eq_nil_iff] at hsilent
  exact ⟨List.isEmpty_iff.mpr hsilent, _, hsilent⟩

/-- A value that is stated without a complaint is one that the base accepts; it is missing only
after a void read. -/
theorem run_statedValue {e : Expr} {r : Option Const}
    (h : (statedValue base e env).run s = some (r, s')) (hsilent : s.added s' = []) :
    r = none ∧ s.voidReads < s'.voidReads ∨
      ∃ (c : Const) (k : Assign) (v : Value), r = some c ∧ v.constant = some c ∧
        k.check base v = [] := by
  obtain ⟨found, s1, hblock, hsilent1, h, hsilent2⟩ := run_bind_silent h hsilent
  cases found with
  | none =>
    cases h
    obtain ⟨b, scopes, s2, heval, hle⟩ := run_withBlock hblock
    rcases failedBetween_evalChecked heval with hreads | ⟨d, hd, -⟩
    · exact .inl ⟨rfl, Nat.lt_of_lt_of_le hreads hle.voidReads⟩
    · exact absurd (State.mem_added_left hle hd) (hsilent1 ▸ List.not_mem_nil)
  | some v =>
    cases hconstant : v.constant with
    | none =>
      dsimp only at h
      rw [if_pos (by simp [Value.isConst, hconstant])] at h
      obtain ⟨⟨⟩, s2, hreport, hsilent, -⟩ := run_bind_silent h hsilent2
      exact absurd hsilent (not_silent_report hreport)
    | some c =>
      dsimp only at h
      rw [if_neg (by simp [Value.isConst, hconstant])] at h
      obtain ⟨ok, s2, hassign, hsilent, h, -⟩ := run_bind_silent h hsilent2
      obtain ⟨rfl, k, hcheck⟩ := run_assign_silent hassign hsilent
      cases h
      exact .inr ⟨c, k, v, hconstant, hconstant, hcheck⟩

theorem isText_of_integer (hinteger : base.category.isInteger = true) : base.isText = false := by
  rw [Ty.isText, Bool.and_eq_false_iff]
  right
  revert hinteger
  cases base.category <;> decide

theorem run_impliedValue {x : Int} {item : EnumItem} (hpure : base.isPure = true)
    (hinteger : base.category.isInteger = true) (hx : next.number? = some x)
    (h : (impliedValue base next item env).run s = some (c, s')) (hsilent : s.added s' = []) :
    c = next ∧ base.category.Holds env.options.wordSize x := by
  have hnumber : base.isNumber = true := by
    simp [Ty.isNumber, hpure, Category.isNumeric, hinteger]
  unfold impliedValue at h
  rw [isText_of_integer hinteger] at h
  obtain ⟨setting, _, hsetting, h⟩ := run_bind.mp h
  cases hsetting
  dsimp only at h
  rw [Assign.check_integer _ hpure hinteger hnumber rfl hx] at h
  split at h
  next hholds =>
    cases h
    exact ⟨rfl, hholds⟩
  next =>
    obtain ⟨⟨⟩, s1, hreport, hsilent1, -⟩ := run_bind_silent h hsilent
    exact absurd hsilent1 (not_silent_report hreport)

/-- The value of an item, before it is cut to the base. -/
def itemValue (base : Ty) (next : Const) (item : EnumItem) : Check (Option Const) :=
  match item.value with
  | some e => statedValue base e
  | none => impliedValue base next item >>= fun c => pure (some c)

theorem itemsFrom_cons (base : Ty) (item : EnumItem) (items : List EnumItem) (next : Const)
    (known : List (String × Const)) :
    itemsFrom base (item :: items) next known =
      if (known.lookup item.name.name).isSome then do
        report (.nameTaken item.name.name) item.name.span
        itemsFrom base items next known
      else itemValue base next item >>= fun
        | none => itemsFrom base items next known
        | some c => pin c base >>= fun c =>
          itemsFrom base items (if base.isText then next else successor c)
            (known ++ [(item.name.name, c)]) := by
  rw [itemsFrom, itemValue]
  cases item.value <;> rfl

/-- When nothing is reported, an item has a number of the base, which is the next one when none
is stated, or it is lost after a void read. -/
theorem run_itemValue {item : EnumItem} {r : Option Const} {y : Int} (hpure : base.isPure = true)
    (hinteger : base.category.isInteger = true) (hnext : next.number? = some y)
    (h : (itemValue base next item env).run s = some (r, s')) (hsilent : s.added s' = []) :
    r = none ∧ item.value ≠ none ∧ s.voidReads < s'.voidReads ∨
      ∃ c x, r = some c ∧ (c.pin env.options.wordSize base).number? = some x ∧
        base.category.Holds env.options.wordSize x ∧ (item.value = none → y = x) := by
  unfold itemValue at h
  cases hvalue : item.value with
  | some e =>
    rw [hvalue] at h
    rcases run_statedValue h hsilent with ⟨hr, hlost⟩ | ⟨c, k, v, hr, hc, hcheck⟩
    · exact .inl ⟨hr, nofun, hlost⟩
    · have hnumeric : c.isNumeric = true := Assign.isNumeric_of_check hpure hinteger hc hcheck
      obtain ⟨x, hx, hholds⟩ :=
        Const.exists_number_pin env.options.wordSize hpure hinteger hnumeric
      exact .inr ⟨c, x, hr, hx, hholds, nofun⟩
  | none =>
    rw [hvalue] at h
    obtain ⟨c, s1, himplied, h⟩ := run_bind.mp h
    cases h
    obtain ⟨rfl, hholds⟩ := run_impliedValue hpure hinteger hnext himplied hsilent
    refine .inr ⟨c, y, rfl, ?_, hholds, fun _ => rfl⟩
    rw [Const.number?_pin hpure hinteger hnext, Category.cut_of_holds hinteger hholds]

theorem counts_itemsFrom {items : List EnumItem} {known entries : List (String × Const)} {y : Int}
    (hpure : base.isPure = true) (hinteger : base.category.isInteger = true)
    (hnext : next.number? = some y) (hknown : numberAfter known = some y)
    (h : (itemsFrom base items next known env).run s = some (entries, s'))
    (hsilent : s.added s' = []) :
    Counts env.options.wordSize base (s.voidReads < s'.voidReads) known items entries := by
  induction items generalizing next known s y with
  | nil =>
    cases h
    exact .nil
  | cons item items ih =>
    rw [itemsFrom_cons] at h
    split at h
    next =>
      obtain ⟨⟨⟩, s1, hreport, hsilent1, -⟩ := run_bind_silent h hsilent
      exact absurd hsilent1 (not_silent_report hreport)
    next hnew =>
    obtain ⟨r, s1, hvalue, hsilent1, h, hsilent2⟩ := run_bind_silent h hsilent
    have hreads : s.voidReads ≤ s1.voidReads := ((itemValue base next item env).le hvalue).voidReads
    have hlossy : s1.voidReads < s'.voidReads → s.voidReads < s'.voidReads :=
      Nat.lt_of_le_of_lt hreads
    rcases run_itemValue hpure hinteger hnext hvalue hsilent1 with
      ⟨rfl, hstated, hlost⟩ | ⟨c, x, rfl, hx, hholds, himplied⟩
    · have hle := (itemsFrom base items next known env).le h
      exact .lost (Nat.lt_of_lt_of_le hlost hle.voidReads) hstated
        ((ih hnext hknown h hsilent2).imp hlossy)
    · obtain ⟨_, _, hpin, h⟩ := run_bind.mp h
      cases hpin
      rw [if_neg (by simp [isText_of_integer hinteger])] at h
      have hnew' : item.name.name ∉ known.map Prod.fst := by
        intro hmem
        obtain ⟨entry, hentry, he⟩ := List.mem_map.mp hmem
        exact hnew (List.lookup_isSome_iff.mpr ⟨entry, hentry, beq_iff_eq.mpr he.symm⟩)
      refine .cons hnew' hx hholds (fun hvalue => himplied hvalue ▸ hknown) (.imp hlossy ?_)
      refine ih (number?_successor hx) ?_ h hsilent2
      rw [numberAfter_concat, hx, Option.map_some]

end Runs

/-! ## Enums -/

section Enums

variable {p : Package} {o : Options} {n : Nat} {c : Context} {s s' : State} {decl : EnumDef}
  {base type : Ty} {entries : List (String × Const)}

/-- The base of an enum: the type that is written, or `u32`. -/
def HasBase (p : Package) (o : Options) (n : Nat) (c : Context) (s : State) (decl : EnumDef)
    (base : Ty) : Prop :=
  match decl.base with
  | none => base = .base .u32
  | some t => ∃ s1, run p o n c (resolve t) s = some (some base, s1)

/-- An enum with an integer base has the items that are counted up from zero. -/
theorem run_enumItems (hbase : HasBase p o n c s decl base) (hpure : base.isPure = true)
    (hinteger : base.category.isInteger = true)
    (h : run p o n c (enumItems decl) s = some ((type, entries), s')) :
    type = base ∧ ∃ s1, s.Le s1 ∧ (itemsFrom base decl.items
      (if base.category.isSigned then .int 0 else .uint 0) [] (envAt p o n c)).run s1 =
        some (entries, s') := by
  have hrest {s1 : State} (h : ((do
      if base.isText || base.isPure && base.category.isInteger then
        let first : Const := if base.category.isSigned then .int 0 else .uint 0
        return (base, ← itemsFrom base decl.items first [])
      else
        report .notAType decl.name.span
        return (base, []) : Check (Ty × List (String × Const))) (envAt p o n c)).run s1 =
        some ((type, entries), s')) :
      type = base ∧ (itemsFrom base decl.items
        (if base.category.isSigned then .int 0 else .uint 0) [] (envAt p o n c)).run s1 =
          some (entries, s') := by
    rw [if_pos (by simp [hpure, hinteger])] at h
    obtain ⟨entries, s2, hitems, h⟩ := run_bind.mp h
    cases h
    exact ⟨rfl, hitems⟩
  unfold HasBase at hbase
  unfold enumItems at h
  split at hbase
  next hnone =>
    rw [hnone] at h
    subst hbase
    exact ⟨(hrest h).1, s, .refl s, (hrest h).2⟩
  next t hsome =>
    rw [hsome] at h
    obtain ⟨s1, hresolve⟩ := hbase
    obtain ⟨found, s2, hrun, h⟩ := run_bind.mp h
    cases hresolve.symm.trans hrun
    exact ⟨(hrest h).1, s1, (resolve t (envAt p o n c)).le hrun, (hrest h).2⟩

/-- When the items of an enum with an integer base are found without a complaint, they have
distinct names and numbers of the base, and an item without a value has the number after that of
the item before it, or zero when it is the first. Only the greatest word is followed by zero. An
item with a value is left out only after a void read. -/
theorem enum_counts_up (hbase : HasBase p o n c s decl base) (hpure : base.isPure = true)
    (hinteger : base.category.isInteger = true)
    (h : run p o n c (enumItems decl) s = some ((type, entries), s'))
    (hsilent : s.added s' = []) :
    type = base ∧ (entries.map Prod.fst).Nodup ∧
    (∀ entry ∈ entries, ∃ x, entry.2.number? = some x ∧ base.category.Holds o.wordSize x) ∧
    ∃ kept : List EnumItem, kept.Sublist decl.items ∧
      (kept = decl.items ∨ s.voidReads < s'.voidReads) ∧
      (∀ item ∈ decl.items, item.value = none → item ∈ kept) ∧
      entries.map Prod.fst = kept.map (·.name.name) ∧
      ∀ (i : Nat) (item : EnumItem) (entry : String × Const), kept[i]? = some item →
        entries[i]? = some entry → item.value = none →
        entry.2.number? = numberAfter (entries.take i) := by
  obtain ⟨htype, s₁, hle, hitems⟩ := run_enumItems hbase hpure hinteger h
  have hsilent₁ : s₁.added s' = [] := by
    rw [State.added_trans hle ((itemsFrom base _ _ _ (envAt p o n c)).le hitems)] at hsilent
    exact (List.append_eq_nil_iff.mp hsilent).2
  have hfirst : (if base.category.isSigned then Const.int 0 else .uint 0).number? = some 0 := by
    split <;> rfl
  have hcounts : Counts o.wordSize base (s.voidReads < s'.voidReads) [] decl.items entries :=
    (counts_itemsFrom hpure hinteger hfirst rfl hitems hsilent₁).imp
      (Nat.lt_of_le_of_lt hle.voidReads)
  obtain ⟨kept, new, rfl, hkept⟩ := hcounts.exists_kept
  exact ⟨htype, hcounts.nodup List.nodup_nil, hcounts.holds nofun, kept, by simpa using hkept⟩

/-- `enum E: u8 { A, B = 254, C }` -/
def byteEnum : EnumDef where
  name := ⟨"E", default⟩
  base := some (.named ⟨"u8", default⟩ [] default)
  items := [⟨⟨"A", default⟩, none, default⟩,
    ⟨⟨"B", default⟩, some (.literal (.int 254) default), default⟩, ⟨⟨"C", default⟩, none, default⟩]
  span := default

/-- The entries of `byteEnum`. -/
def byteEntries : List (String × Const) := [("A", .uint 0), ("B", .uint 254), ("C", .uint 255)]

theorem enum_counts_up_byteEnum : ∃ s', HasBase .empty {} 2 {} {} byteEnum (.base .u8) ∧
    run .empty {} 2 {} (enumItems byteEnum) {} = some ((.base .u8, byteEntries), s') ∧
    ({} : State).added s' = [] ∧ (byteEntries.map Prod.fst).Nodup ∧
    (∀ entry ∈ byteEntries, ∃ x, entry.2.number? = some x ∧ Category.u8.Holds .w64 x) ∧
    (Const.uint 255).number? = numberAfter (byteEntries.take 2) := by
  have hbase : HasBase .empty {} 2 {} {} byteEnum (.base .u8) := ⟨_, rfl⟩
  have hrun : ∃ s', run .empty {} 2 {} (enumItems byteEnum) {} =
      some ((.base .u8, byteEntries), s') ∧ s'.diags = #[] ∧ s'.voidReads = 0 := ⟨_, rfl, rfl, rfl⟩
  obtain ⟨s', hrun, hdiags, hreads⟩ := hrun
  have hsilent : ({} : State).added s' = [] := by simp [State.added, hdiags]
  obtain ⟨-, hnodup, hholds, kept, -, hkept, -, -, hcount⟩ :=
    enum_counts_up hbase rfl rfl hrun hsilent
  obtain rfl := hkept.resolve_right (hreads ▸ Nat.lt_irrefl 0)
  exact ⟨s', hbase, hrun, hsilent, hnodup, hholds, hcount 2 _ _ rfl rfl rfl⟩

/-- `enum E: u64 { A = 18446744073709551615, B }` -/
def lastWord : EnumDef where
  name := ⟨"E", default⟩
  base := some (.named ⟨"u64", default⟩ [] default)
  items := [⟨⟨"A", default⟩, some (.literal (.int 18446744073709551615) default), default⟩,
    ⟨⟨"B", default⟩, none, default⟩]
  span := default

/-- The item after the greatest word has the value zero, and nothing is reported. -/
theorem lastWord_wraps : ∃ s', run .empty {} 2 {} (enumItems lastWord) {} =
    some ((.base .u64, [("A", .uint 18446744073709551615), ("B", .uint 0)]), s') ∧
    ({} : State).added s' = [] :=
  ⟨_, rfl, rfl⟩

end Enums

end Check

end JaneCheck
