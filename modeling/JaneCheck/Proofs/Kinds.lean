import JaneCheck.Text.Letters
import JaneCheck.Token
import JaneCheck.Ty
import Mathlib.Data.List.Basic

/-!
# Reading a kind back

Types are compared by category and kind, and the kind is a text. `Built` are the
types that a program can write: each name in them has one meaning and is no
primitive's, and `void` is nothing but the missing result of a function.

The kind of a type is read from the left: its first character tells the shape
(`lead`), a name goes on as long as there are letters, and a part ends where a
comma or a closing bracket follows (`Closes`). Here are the beginnings of kinds
and the lists in them.
-/

namespace JaneCheck

/-! ## Structure -/

namespace Ty

mutual

/-- The structure of a type: without the names, mutability and defaults of
parameters, which functions are compared without. -/
def bare : Ty → Ty
  | .base c => .base c
  | .generic name => .generic name
  | .pointer t => .pointer t.bare
  | .reference t => .reference t.bare
  | .slice t => .slice t.bare
  | .array t size => .array t.bare size
  | .map k v => .map k.bare v.bare
  | .tuple ts => .tuple (bares ts)
  | .function ⟨params, ret, _, _, isUnsafe⟩ =>
    .function ⟨bareParams params, ret.bare, false, false, isUnsafe⟩
  | .struct id name gs => .struct id name (bares gs)
  | .trait id name => .trait id name
  | .enum id name => .enum id name

def bares : List Ty → List Ty
  | [] => []
  | t :: ts => t.bare :: bares ts

def bareParams : List (Param Ty) → List (Param Ty)
  | [] => []
  | ⟨_, t, _, variadic, _⟩ :: ps => ⟨"", t.bare, false, variadic, false⟩ :: bareParams ps

end

theorem category_bare (t : Ty) : t.bare.category = t.category := by
  induction t using Ty.category.induct <;> simp_all [bare, category]

mutual

theorem kind_bare (t : Ty) : t.bare.kind = t.kind := by
  cases t with
  | pointer t | reference t | slice t | array t _ => simp [bare, kind, kind_bare t]
  | map k v => simp [bare, kind, kind_bare k, kind_bare v]
  | tuple ts => simp [bare, kind, kinds_bares ts]
  | function sig =>
    obtain ⟨params, ret, _, _, isUnsafe⟩ := sig
    simp [bare, kind, paramKinds_bareParams params, kind_bare ret, category_bare]
  | struct id name gs =>
    cases gs with
    | nil => rfl
    | cons g gs => simp [bare, bares, kind, kinds, kind_bare g, kinds_bares gs]
  | _ => rfl

theorem kinds_bares (ts : List Ty) : kinds (bares ts) = kinds ts := by
  cases ts with
  | nil => rfl
  | cons t ts => simp [bares, kinds, kind_bare t, kinds_bares ts]

theorem paramKinds_bareParams (ps : List (Param Ty)) :
    paramKinds (bareParams ps) = paramKinds ps := by
  cases ps with
  | nil => rfl
  | cons p ps =>
    obtain ⟨_, t, _, variadic, _⟩ := p
    simp [bareParams, paramKinds, kind_bare t, elementKind_bare t, paramKinds_bareParams ps]

theorem elementKind_bare (t : Ty) : t.bare.elementKind = t.elementKind := by
  cases t with
  | slice t | array t _ => simp [bare, elementKind, kind_bare t]
  | pointer t | reference t => simp [bare, elementKind, elementKind_bare t]
  | function sig => rfl
  | _ => rfl

end

theorem same_of_bare_eq {a b : Ty} (h : a.bare = b.bare) : (a == b) = true := by
  show (a.category == b.category && a.kind == b.kind) = true
  rw [← category_bare a, ← category_bare b, ← kind_bare a, ← kind_bare b, h]
  simp

end Ty

/-! ## Types that a program can write -/

/-- A letter or underscore, then letters, numerals and underscores. -/
def isWord : List Char → Bool
  | [] => false
  | c :: cs => Text.opensName c && cs.all Text.continuesName

/-- A word that is read as a name. -/
structure IsName (word : String) : Prop where
  letters : isWord word.toList = true
  notKeyword : Keyword.ofText? word = none

/-- What a name in a type stands for. -/
inductive TypeName where
  | parameter
  | struct (id : StructId)
  | trait (id : TraitId)
  | enum (id : EnumId)

/-- Every name has one meaning at most, and none is that of a primitive. -/
structure Naming where
  meaning : String → Option TypeName
  isName : ∀ {word m}, meaning word = some m → IsName word
  notPrimitive : ∀ {word m}, meaning word = some m → Category.ofName? word = none

/-- The types that are built from primitives, the raw pointer and names. A
variadic parameter has the type of a slice. -/
inductive Built (N : Naming) : Ty → Prop
  | base {c} (h : c ∈ Category.nameable) (hvoid : c ≠ .void) : Built N (.base c)
  | rawPointer : Built N .rawPointer
  | generic {name} (h : N.meaning name = some .parameter) : Built N (.generic name)
  | pointer {t} (h : Built N t) : Built N (.pointer t)
  | reference {t} (h : Built N t) : Built N (.reference t)
  | slice {t} (h : Built N t) : Built N (.slice t)
  | array {t size} (h : Built N t) : Built N (.array t size)
  | map {k v} (hk : Built N k) (hv : Built N v) : Built N (.map k v)
  | tuple {ts} (h : ∀ t ∈ ts, Built N t) (hlen : 2 ≤ ts.length) : Built N (.tuple ts)
  | function {sig} (hparams : ∀ p ∈ sig.params, Built N p.type)
      (hvariadic : ∀ p ∈ sig.params, p.variadic = true → p.type.isSlice = true)
      (hret : sig.ret ≠ .void → Built N sig.ret) : Built N (.function sig)
  | struct {id name gs} (h : N.meaning name = some (.struct id)) (hgs : ∀ g ∈ gs, Built N g) :
      Built N (.struct id name gs)
  | trait {id name} (h : N.meaning name = some (.trait id)) : Built N (.trait id name)
  | enum {id name} (h : N.meaning name = some (.enum id)) : Built N (.enum id name)

theorem Built.category_ne_void {N : Naming} {t : Ty} (h : Built N t) : t.category ≠ .void := by
  induction h with
  | base _ hvoid => exact hvoid
  | pointer _ ih | reference _ ih => exact ih
  | _ => simp [Ty.category]

/-! ## Texts -/

/-- A part of a kind ends before the text. -/
def Closes : List Char → Prop
  | [] => True
  | c :: _ => c ∈ [',', ':', ')', ']']

/-- Two texts agree on the part that runs as far as all characters have a property. -/
theorem eq_of_append_eq {P : Char → Bool} {u v r s : List Char} (hu : ∀ c ∈ u, P c = true)
    (hv : ∀ c ∈ v, P c = true) (hr : ∀ c ∈ r.head?, P c = false) (hs : ∀ c ∈ s.head?, P c = false)
    (h : u ++ r = v ++ s) : u = v ∧ r = s := by
  induction u generalizing v with
  | nil =>
    cases v with
    | nil => exact ⟨rfl, h⟩
    | cons d v =>
      have hd : P d = false := hr d (by rw [show r = d :: (v ++ s) from h]; rfl)
      rw [hv d (by simp)] at hd
      cases hd
  | cons c u ih =>
    cases v with
    | nil =>
      have hc : P c = false := hs c (by rw [show s = c :: (u ++ r) from h.symm]; rfl)
      rw [hu c (by simp)] at hc
      cases hc
    | cons d v =>
      obtain ⟨rfl, htail⟩ := List.cons.inj h
      obtain ⟨rfl, hrest⟩ :=
        ih (fun c hc => hu c (by simp [hc])) (fun c hc => hv c (by simp [hc])) htail
      exact ⟨rfl, hrest⟩

section Lists

variable {α : Type} {text : α → List Char} {Q : α → α → Prop} {sep : List Char} {close : Char}

/-- Of two texts that go on alike, the parts for `a` and `b` end at one place. -/
def ReadsAs (text : α → List Char) (Q : α → α → Prop) (a b : α) : Prop :=
  ∀ ⦃r s⦄, Closes r → Closes s → text a ++ r = text b ++ s → Q a b ∧ r = s

/-- What follows the first of several texts between brackets. -/
def moreTexts (sep : List Char) (close : Char) : List (List Char) → List Char → List Char
  | [], r => close :: r
  | t :: ts, r => ',' :: sep ++ ((',' :: sep).intercalate (t :: ts) ++ close :: r)

theorem intercalate_cons_append (t : List Char) (ts : List (List Char)) (r : List Char) :
    (',' :: sep).intercalate (t :: ts) ++ close :: r = t ++ moreTexts sep close ts r := by
  cases ts with
  | nil => simp [moreTexts, List.intercalate_singleton]
  | cons t' ts => simp [moreTexts, List.intercalate_cons_cons, List.append_assoc]

theorem closes_moreTexts (hclose : close ∈ [')', ']']) (ts : List (List Char)) (r : List Char) :
    Closes (moreTexts sep close ts r) := by
  cases ts with
  | nil =>
    show close ∈ [',', ':', ')', ']']
    simp_all
  | cons t ts => simp [moreTexts, Closes]

theorem exists_of_not_closes {t : List Char} (h : ¬Closes t) :
    ∃ c cs, t = c :: cs ∧ c ∉ [',', ':', ')', ']'] := by
  cases t with
  | nil => exact (h trivial).elim
  | cons c cs => exact ⟨c, cs, rfl, h⟩

theorem close_cons_ne {t : List Char} (ht : ¬Closes t) (hclose : close ∈ [')', ']'])
    (r more : List Char) : close :: r ≠ t ++ more := by
  obtain ⟨c, cs, rfl, hc⟩ := exists_of_not_closes ht
  intro h
  obtain ⟨rfl, -⟩ := List.cons.inj h
  simp_all

/-- Lists are read element by element. -/
theorem forall₂_of_intercalate (hclose : close ∈ [')', ']']) {as bs : List α}
    (hreads : ∀ a ∈ as, ∀ b ∈ bs, ReadsAs text Q a b) (has : ∀ a ∈ as, ¬Closes (text a))
    (hbs : ∀ b ∈ bs, ¬Closes (text b)) {r s : List Char}
    (h : (',' :: sep).intercalate (as.map text) ++ close :: r =
      (',' :: sep).intercalate (bs.map text) ++ close :: s) :
    List.Forall₂ Q as bs ∧ r = s := by
  induction as generalizing bs with
  | nil =>
    cases bs with
    | nil =>
      rw [List.map_nil, List.intercalate_nil] at h
      exact ⟨.nil, (List.cons.inj h).2⟩
    | cons b bs =>
      rw [List.map_cons, intercalate_cons_append] at h
      exact (close_cons_ne (hbs b (by simp)) hclose _ _ h).elim
  | cons a as ih =>
    cases bs with
    | nil =>
      rw [List.map_cons, intercalate_cons_append] at h
      exact (close_cons_ne (has a (by simp)) hclose _ _ h.symm).elim
    | cons b bs =>
      rw [List.map_cons, List.map_cons, intercalate_cons_append, intercalate_cons_append] at h
      obtain ⟨hab, hmore⟩ := hreads a (by simp) b (by simp) (closes_moreTexts hclose _ _)
        (closes_moreTexts hclose _ _) h
      have hcomma : close ≠ ',' := by rintro rfl; simp at hclose
      cases as with
      | nil =>
        cases bs with
        | nil => exact ⟨.cons hab .nil, (List.cons.inj hmore).2⟩
        | cons b' bs => exact (hcomma (List.cons.inj hmore).1).elim
      | cons a' as =>
        cases bs with
        | nil => exact (hcomma (List.cons.inj hmore).1.symm).elim
        | cons b' bs =>
          have hrest := List.append_cancel_left hmore
          obtain ⟨hall, hrs⟩ := ih
            (fun a ha b (hb : b ∈ b' :: bs) => hreads a (.tail _ ha) b (.tail _ hb))
            (fun a ha => has a (.tail _ ha)) (fun b hb => hbs b (.tail _ hb)) hrest
          exact ⟨.cons hab hall, hrs⟩

end Lists

/-! ## The beginning of a kind -/

namespace Ty

abbrev chars (t : Ty) : List Char := t.kind.toList

/-- The first character of a kind that does not begin with a word. -/
def lead : Ty → Option Char
  | .pointer _ => some '*'
  | .reference _ => some '&'
  | .slice _ | .array _ _ | .map _ _ => some '['
  | .tuple _ => some '('
  | _ => none

/-- The word that any other kind begins with. -/
def word : Ty → String
  | .base c => c.name
  | .generic name | .struct _ name _ | .trait _ name | .enum _ name => name
  | .function sig => if sig.isUnsafe then "unsafe" else "fn"
  | _ => ""

/-- The result in a kind. -/
def arrow (ret : Ty) : List Char :=
  if ret.category = .void then [] else [' ', '-', '>', ' '] ++ ret.chars

/-- The arguments of a struct or the signature of a function, after the word. -/
def afterWord : Ty → List Char
  | .struct _ _ (g :: gs) => '[' :: ([','].intercalate ((g :: gs).map chars) ++ [']'])
  | .function ⟨params, ret, _, _, isUnsafe⟩ =>
    (if isUnsafe then [' ', 'f', 'n', '('] else ['(']) ++
      ([',', ' '].intercalate ((paramKinds params).map String.toList) ++ ')' :: arrow ret)
  | _ => []

theorem kinds_eq_map (ts : List Ty) : kinds ts = ts.map kind := by
  induction ts with
  | nil => rfl
  | cons t ts ih => simp [kinds, ih]

theorem chars_of_lead_none {t : Ty} (h : t.lead = none) :
    t.chars = t.word.toList ++ t.afterWord := by
  cases t with
  | function sig =>
    obtain ⟨params, ret, _, _, isUnsafe⟩ := sig
    cases isUnsafe <;>
      by_cases hvoid : ret.category = .void <;>
      simp [chars, kind, word, afterWord, arrow, hvoid, String.toList_intercalate]
  | struct id name gs =>
    cases gs with
    | nil => simp [chars, kind, word, afterWord]
    | cons g gs =>
      simp [chars, kind, word, afterWord, kinds_eq_map, String.toList_intercalate,
        Function.comp_def]
  | base | generic | trait | enum => simp [chars, kind, word, afterWord]
  | _ => cases h

theorem chars_of_lead_some {t : Ty} {c : Char} (h : t.lead = some c) :
    ∃ cs, t.chars = c :: cs := by
  cases t with
  | pointer | reference | slice | array | map | tuple => cases h; simp [chars, kind]
  | _ => cases h

end Ty

section Words

variable {N : Naming} {t u : Ty} {r s : List Char}

theorem opens_of_isWord {w : List Char} (h : isWord w = true) :
    ∃ c cs, w = c :: cs ∧ Text.opensName c = true := by
  cases w with
  | nil => cases h
  | cons c cs => exact ⟨c, cs, rfl, (Bool.and_eq_true_iff.mp h).1⟩

theorem continues_of_isWord {w : List Char} (h : isWord w = true) :
    ∀ c ∈ w, Text.continuesName c = true := by
  cases w with
  | nil => cases h
  | cons c cs =>
    obtain ⟨hfirst, hrest⟩ := Bool.and_eq_true_iff.mp h
    rintro d (_ | ⟨_, hd⟩)
    · rw [Text.opensName, Bool.or_eq_true] at hfirst
      rcases hfirst with hc | hc <;> simp [Text.continuesName, hc]
    · exact List.all_eq_true.mp hrest d hd

theorem primitive_word : ∀ c ∈ Category.nameable,
    isWord c.name.toList = true ∧ Category.ofName? c.name = some c ∧
      Keyword.ofText? c.name = none := by
  decide

theorem Built.isWord (h : Built N t) (hlead : t.lead = none) : isWord t.word.toList = true := by
  cases h with
  | base hc _ => exact (primitive_word _ hc).1
  | generic hm | struct hm | trait hm | enum hm => exact (N.isName hm).letters
  | @function sig _ _ _ =>
    show JaneCheck.isWord (if sig.isUnsafe then "unsafe" else "fn").toList = true
    split <;> decide
  | _ => cases hlead

theorem Built.opens (h : Built N t) :
    ∃ c cs, t.chars = c :: cs ∧ (t.lead = some c ∨ t.lead = none ∧ Text.opensName c = true) := by
  cases hlead : t.lead with
  | some c =>
    obtain ⟨cs, hcs⟩ := Ty.chars_of_lead_some hlead
    exact ⟨c, cs, hcs, .inl rfl⟩
  | none =>
    obtain ⟨c, cs, hword, hc⟩ := opens_of_isWord (h.isWord hlead)
    exact ⟨c, cs ++ t.afterWord, by rw [Ty.chars_of_lead_none hlead, hword]; rfl, .inr ⟨rfl, hc⟩⟩

theorem stops_word : ∀ c ∈ [',', ':', ')', ']', '[', '(', ' '],
    Text.opensName c = false ∧ Text.continuesName c = false := by
  intro c hc
  simp only [List.mem_cons, List.not_mem_nil, or_false] at hc
  rcases hc with rfl | rfl | rfl | rfl | rfl | rfl | rfl <;> decide

theorem not_opensName_of_lead {c : Char} (h : t.lead = some c) : Text.opensName c = false := by
  cases t with
  | pointer | reference | slice | array | map | tuple => cases h; decide
  | _ => cases h

theorem Built.not_closes (h : Built N t) : ¬Closes t.chars := by
  obtain ⟨c, cs, hcs, hc⟩ := h.opens
  rw [hcs]
  rintro (hmem : c ∈ [',', ':', ')', ']'])
  rcases hc with hlead | ⟨-, hopens⟩
  · cases t with
    | pointer | reference | slice | array | map | tuple => cases hlead; simp at hmem
    | _ => cases hlead
  · have hstops := List.mem_append_left ['[', '(', ' '] hmem
    rw [(stops_word c hstops).1] at hopens
    cases hopens

theorem Built.lead_eq (ht : Built N t) (hu : Built N u) (h : t.chars ++ r = u.chars ++ s) :
    t.lead = u.lead := by
  obtain ⟨c, cs, hcs, hc⟩ := ht.opens
  obtain ⟨d, ds, hds, hd⟩ := hu.opens
  rw [hcs, hds] at h
  obtain ⟨rfl, -⟩ := List.cons.inj h
  rcases hc with hc | ⟨hc, hopens⟩ <;> rcases hd with hd | ⟨hd, hopens'⟩
  · rw [hc, hd]
  · rw [not_opensName_of_lead hc] at hopens'
    cases hopens'
  · rw [not_opensName_of_lead hd] at hopens
    cases hopens
  · rw [hc, hd]

theorem stops_of_closes (h : Closes r) : ∀ c ∈ r.head?, Text.continuesName c = false := by
  cases r with
  | nil => simp
  | cons c cs =>
    rintro _ ⟨⟩
    have hmem : c ∈ [',', ':', ')', ']'] := h
    exact (stops_word c (List.mem_append_left ['[', '(', ' '] hmem)).2

theorem stops_afterWord (h : Closes r) :
    ∀ c ∈ (t.afterWord ++ r).head?, Text.continuesName c = false := by
  unfold Ty.afterWord
  split
  · rintro _ ⟨⟩
    decide
  next isUnsafe =>
    cases isUnsafe
    all_goals
      rintro _ ⟨⟩
      decide
  · exact stops_of_closes h

/-- Kinds that begin with words and go on alike have one word. -/
theorem Built.word_eq (ht : Built N t) (hu : Built N u) (hlead : t.lead = none) (hr : Closes r)
    (hs : Closes s) (h : t.chars ++ r = u.chars ++ s) :
    u.lead = none ∧ t.word = u.word ∧ t.afterWord ++ r = u.afterWord ++ s := by
  have hlead' : u.lead = none := (ht.lead_eq hu h).symm.trans hlead
  rw [Ty.chars_of_lead_none hlead, Ty.chars_of_lead_none hlead', List.append_assoc,
    List.append_assoc] at h
  obtain ⟨hword, hafter⟩ := eq_of_append_eq (continues_of_isWord (ht.isWord hlead))
    (continues_of_isWord (hu.isWord hlead')) (stops_afterWord hr) (stops_afterWord hs) h
  exact ⟨hlead', String.toList_inj.mp hword, hafter⟩

/-! ## What a word tells -/

theorem isSome_ofText_word (sig : FnSig) :
    (Keyword.ofText? (Ty.function sig).word).isSome = true := by
  show (Keyword.ofText? (if sig.isUnsafe then "unsafe" else "fn")).isSome = true
  split <;> decide

theorem Built.of_keyword (h : Built N t) (hlead : t.lead = none)
    (hword : (Keyword.ofText? t.word).isSome = true) : ∃ sig, t = .function sig := by
  cases h with
  | function => exact ⟨_, rfl⟩
  | base hc _ =>
    rw [Ty.word, (primitive_word _ hc).2.2] at hword
    cases hword
  | generic hm | struct hm | trait hm | enum hm =>
    rw [Ty.word, (N.isName hm).notKeyword] at hword
    cases hword
  | _ => cases hlead

/-- A type whose word is a name is what the name stands for. -/
theorem Built.of_meaning {name : String} {m : TypeName} (h : Built N t) (hlead : t.lead = none)
    (hword : name = t.word) (hm : N.meaning name = some m) :
    match m with
    | .parameter => t = .generic name
    | .struct id => ∃ gs, t = .struct id name gs ∧ ∀ g ∈ gs, Built N g
    | .trait id => t = .trait id name
    | .enum id => t = .enum id name := by
  subst hword
  cases h with
  | base hc _ =>
    have hprimitive := N.notPrimitive hm
    rw [Ty.word, (primitive_word _ hc).2.1] at hprimitive
    cases hprimitive
  | generic h | trait h | enum h =>
    cases h.symm.trans hm
    rfl
  | struct h hgs =>
    cases h.symm.trans hm
    exact ⟨_, rfl, hgs⟩
  | @function sig _ _ _ =>
    have hkeyword := isSome_ofText_word sig
    rw [(N.isName hm).notKeyword] at hkeyword
    cases hkeyword
  | _ => cases hlead

theorem Built.of_primitive {c : Category} (h : Built N t) (hlead : t.lead = none)
    (hc : c ∈ Category.nameable) (hword : t.word = c.name) : t = .base c := by
  obtain ⟨-, hofName, hkeyword⟩ := primitive_word c hc
  cases h with
  | @base d hd _ =>
    have hname : Category.ofName? d.name = some d := (primitive_word d hd).2.1
    rw [show d.name = c.name from hword, hofName] at hname
    cases hname
    rfl
  | generic hm | struct hm | trait hm | enum hm =>
    have hprimitive := N.notPrimitive hm
    simp only [Ty.word] at hword
    rw [hword, hofName] at hprimitive
    cases hprimitive
  | @function sig _ _ _ =>
    have hsome := isSome_ofText_word sig
    rw [hword, hkeyword] at hsome
    cases hsome
  | _ => cases hlead

end Words

end JaneCheck
