import JaneCheck.Proofs.Kinds

/-!
# Kinds tell types apart

`same_iff_bare_eq`: two types that a program can write are equal exactly when
they have the same structure, all that a kind does not show left out (`bare`).
One lemma for each shape says how its kind is taken apart; `Built.readable` puts
them together by induction on the type.
-/

namespace JaneCheck

/-! ## Sizes, parameters and results -/

def isSizeChar (c : Char) : Bool := c.isDigit || c == '.'

theorem not_opensName_of_isSizeChar {c : Char} (h : isSizeChar c = true) :
    Text.opensName c = false := by
  rw [isSizeChar, Bool.or_eq_true, beq_iff_eq] at h
  rcases h with hdigit | rfl
  · obtain ⟨hlow, hhigh⟩ := Char.isDigit_iff_toNat.mp hdigit
    have hdigits : ∀ n ≤ '9'.toNat, '0'.toNat ≤ n → Text.opensName (Char.ofNat n) = false := by
      decide
    rw [← Char.ofNat_toNat c]
    exact hdigits c.toNat hhigh hlow
  · decide

namespace Ty

theorem toList_sizeText (n : UInt64) : (sizeText (some n)).toList = Nat.toDigits 10 n.toNat := by
  rw [sizeText, Nat.toString_eq_repr, Nat.toList_repr]

theorem isSizeChar_of_mem_sizeText {size : Option UInt64} :
    ∀ c ∈ (sizeText size).toList, isSizeChar c = true := by
  intro c hc
  cases size with
  | none =>
    have hdot : c = '.' := by simpa [sizeText] using hc
    rw [hdot]
    rfl
  | some n =>
    rw [toList_sizeText] at hc
    simp [isSizeChar, Nat.isDigit_of_mem_toDigits (by decide) (by decide) hc]

theorem sizeText_ne_nil (size : Option UInt64) : (sizeText size).toList ≠ [] := by
  cases size with
  | none => decide
  | some n =>
    rw [toList_sizeText]
    exact Nat.toDigits_ne_nil

theorem sizeText_some_ne_none (n : UInt64) :
    (sizeText (some n)).toList ≠ (sizeText none).toList := by
  intro h
  have hdot : '.' ∈ Nat.toDigits 10 n.toNat := by
    rw [← toList_sizeText, h]
    decide
  cases Nat.isDigit_of_mem_toDigits (by decide) (by decide) hdot

theorem sizeText_inj {m n : Option UInt64} (h : (sizeText m).toList = (sizeText n).toList) :
    m = n := by
  cases m with
  | none =>
    cases n with
    | none => rfl
    | some n => exact (sizeText_some_ne_none n h.symm).elim
  | some m =>
    cases n with
    | none => exact (sizeText_some_ne_none m h).elim
    | some n =>
      have hdigits := congrArg (fun ds => Nat.ofDigitChars 10 ds 0) h
      simp only [toList_sizeText, Nat.ofDigitChars_ten_toDigits] at hdigits
      rw [UInt64.toNat_inj.mp hdigits]

theorem chars_pointer (t : Ty) : (pointer t).chars = '*' :: t.chars := by simp [chars, kind]

theorem chars_reference (t : Ty) : (reference t).chars = '&' :: t.chars := by simp [chars, kind]

theorem chars_tuple (ts : List Ty) :
    (tuple ts).chars = '(' :: ([',', ' '].intercalate (ts.map chars) ++ [')']) := by
  simp [chars, kind, kinds_eq_map, String.toList_intercalate, Function.comp_def]

/-- Between the bracket and what follows, the size of an array. -/
def sizePart : Ty → List Char
  | .array _ size => (sizeText size).toList
  | _ => []

/-- What follows the bracket and the size. -/
def afterSize : Ty → List Char
  | .slice t | .array t _ => ']' :: t.chars
  | .map k v => k.chars ++ ':' :: (v.chars ++ [']'])
  | _ => []

theorem chars_of_lead_bracket {t : Ty} (h : t.lead = some '[') :
    t.chars = '[' :: (t.sizePart ++ t.afterSize) := by
  cases t with
  | slice | array | map => simp [chars, kind, sizePart, afterSize]
  | _ => cases h

end Ty

/-- The kind of a parameter in a signature. -/
def Param.chars (p : Param Ty) : List Char :=
  if p.variadic then ['.', '.', '.'] ++ p.type.elementKind.toList else p.type.chars

theorem Ty.paramKinds_eq_map (ps : List (Param Ty)) :
    (paramKinds ps).map String.toList = ps.map Param.chars := by
  induction ps with
  | nil => rfl
  | cons p ps ih =>
    obtain ⟨_, t, _, variadic, _⟩ := p
    cases variadic <;> simp [paramKinds, Param.chars, ih]

section Reading

variable {N : Naming} {t u : Ty} {r s : List Char}

theorem Built.not_isSizeChar (h : Built N t) : ∀ c ∈ (t.chars ++ r).head?, isSizeChar c = false := by
  obtain ⟨c, cs, hcs, hc⟩ := h.opens
  rw [hcs]
  rintro _ ⟨⟩
  have hopens : isSizeChar c = true → Text.opensName c = false := not_opensName_of_isSizeChar
  rcases hc with hlead | ⟨-, hc⟩
  · cases t with
    | pointer | reference | slice | array | map | tuple => cases hlead; decide
    | _ => cases hlead
  · simp_all

/-- As far as it goes, the kind of the type tells its structure. -/
def Readable (N : Naming) (t : Ty) : Prop :=
  ∀ u, Built N u → ReadsAs Ty.chars (fun a b => a.bare = b.bare) t u

/-! ## One lemma for each shape -/

theorem tail_eq {c : Char} {x y : List Char} (h : c :: x ++ r = c :: y ++ s) : x ++ r = y ++ s :=
  (List.cons.inj h).2

theorem bares_eq {ts us : List Ty} (h : List.Forall₂ (fun a b => a.bare = b.bare) ts us) :
    Ty.bares ts = Ty.bares us := by
  induction h with
  | nil => rfl
  | cons hab _ ih => simp [Ty.bares, hab, ih]

theorem bareParams_eq {ps qs : List (Param Ty)}
    (h : List.Forall₂ (fun p q => p.type.bare = q.type.bare ∧ p.variadic = q.variadic) ps qs) :
    Ty.bareParams ps = Ty.bareParams qs := by
  induction h with
  | nil => rfl
  | cons hpq _ ih => simp [Ty.bareParams, hpq.1, hpq.2, ih]

theorem reads_types {sep : List Char} {close : Char} {ts us : List Ty}
    (hclose : close ∈ [')', ']']) (hts : ∀ t ∈ ts, Built N t) (hus : ∀ u ∈ us, Built N u)
    (hreads : ∀ t ∈ ts, Readable N t)
    (h : (',' :: sep).intercalate (ts.map Ty.chars) ++ close :: r =
      (',' :: sep).intercalate (us.map Ty.chars) ++ close :: s) :
    Ty.bares ts = Ty.bares us ∧ r = s := by
  obtain ⟨hall, hrest⟩ := forall₂_of_intercalate hclose
    (fun t ht u hu => hreads t ht u (hus u hu)) (fun t ht => (hts t ht).not_closes)
    (fun u hu => (hus u hu).not_closes) h
  exact ⟨bares_eq hall, hrest⟩

/-- A parameter that a signature can have. -/
def BuiltParam (N : Naming) (p : Param Ty) : Prop :=
  Built N p.type ∧ (p.variadic = true → p.type.isSlice = true)

theorem BuiltParam.not_closes {p : Param Ty} (h : BuiltParam N p) : ¬Closes p.chars := by
  unfold Param.chars
  split
  · simp [Closes]
  · exact h.1.not_closes

theorem BuiltParam.dots_ne {p : Param Ty} (h : BuiltParam N p) (hfixed : p.variadic = false)
    (cs : List Char) : p.chars ++ r ≠ '.' :: cs := by
  intro heq
  have hsize := h.1.not_isSizeChar (r := r) '.'
  rw [Param.chars, hfixed] at heq
  rw [show p.type.chars ++ r = '.' :: cs from heq] at hsize
  cases hsize rfl

theorem reads_param {p q : Param Ty} (hp : BuiltParam N p) (hq : BuiltParam N q)
    (hread : Readable N p.type) :
    ReadsAs Param.chars (fun p q => p.type.bare = q.type.bare ∧ p.variadic = q.variadic) p q := by
  intro r s hr hs h
  cases hpv : p.variadic with
  | false =>
    cases hqv : q.variadic with
    | false =>
      simp only [Param.chars, hpv, hqv, Bool.false_eq_true, if_false] at h
      obtain ⟨hbare, hrest⟩ := hread q.type hq.1 hr hs h
      exact ⟨⟨hbare, hpv.trans hqv.symm⟩, hrest⟩
    | true =>
      rw [Param.chars.eq_1 q, hqv] at h
      exact (hp.dots_ne hpv _ h).elim
  | true =>
    cases hqv : q.variadic with
    | false =>
      rw [Param.chars.eq_1 p, hpv] at h
      exact (hq.dots_ne hqv _ h.symm).elim
    | true =>
      -- both show the elements of a slice, so the slices go on alike too
      have hslice := hp.2 hpv
      have hslice' := hq.2 hqv
      have hchars : p.type.chars ++ r = q.type.chars ++ s := by
        revert h
        simp only [Param.chars, hpv, hqv]
        cases ht : p.type with
        | slice a =>
          cases hu : q.type with
          | slice b => simp [Ty.elementKind, Ty.chars, Ty.kind]
          | _ => simp [hu, Ty.isSlice] at hslice'
        | _ => simp [ht, Ty.isSlice] at hslice
      obtain ⟨hbare, hrest⟩ := hread q.type hq.1 hr hs hchars
      exact ⟨⟨hbare, hpv.trans hqv.symm⟩, hrest⟩

theorem reads_params {ps qs : List (Param Ty)} (hps : ∀ p ∈ ps, BuiltParam N p)
    (hqs : ∀ q ∈ qs, BuiltParam N q) (hreads : ∀ p ∈ ps, Readable N p.type)
    (h : [',', ' '].intercalate (ps.map Param.chars) ++ ')' :: r =
      [',', ' '].intercalate (qs.map Param.chars) ++ ')' :: s) :
    Ty.bareParams ps = Ty.bareParams qs ∧ r = s := by
  obtain ⟨hall, hrest⟩ := forall₂_of_intercalate (by decide)
    (fun p hp q hq => reads_param (hps p hp) (hqs q hq) (hreads p hp))
    (fun p hp => (hps p hp).not_closes) (fun q hq => (hqs q hq).not_closes) h
  exact ⟨bareParams_eq hall, hrest⟩

theorem arrow_void : Ty.arrow .void = [] := rfl

theorem Built.arrow_eq (h : Built N t) : Ty.arrow t = [' ', '-', '>', ' '] ++ t.chars :=
  if_neg h.category_ne_void

theorem reads_arrow {a b : Ty} (ha : a ≠ .void → Built N a) (hb : b ≠ .void → Built N b)
    (hread : a ≠ .void → Readable N a) :
    ReadsAs Ty.arrow (fun a b => a.bare = b.bare) a b := by
  intro r s hr hs h
  have blank_ne {x y : List Char} (hx : Closes x) : x ≠ ' ' :: y := by
    rintro rfl
    simp [Closes] at hx
  by_cases hva : a = .void
  · by_cases hvb : b = .void
    · subst hva hvb
      exact ⟨rfl, h⟩
    · rw [hva, arrow_void, (hb hvb).arrow_eq] at h
      exact (blank_ne hr h).elim
  · by_cases hvb : b = .void
    · rw [hvb, arrow_void, (ha hva).arrow_eq] at h
      exact (blank_ne hs h.symm).elim
    · rw [(ha hva).arrow_eq, (hb hvb).arrow_eq, List.append_assoc, List.append_assoc] at h
      exact hread hva b (hb hvb) hr hs (List.append_cancel_left h)

/-- No type goes on where the kind of the raw pointer ends. -/
theorem Built.ne_raw (h : Built N t) (hr : Closes r) (hs : Closes s) :
    t.chars ++ r ≠ (Ty.base .raw).chars ++ s := by
  intro heq
  obtain ⟨c, cs, hcs, hc⟩ := h.opens
  have hlead : t.lead = none := by
    rcases hc with hlead | ⟨hlead, -⟩
    · rw [hcs] at heq
      obtain ⟨rfl, -⟩ := List.cons.inj heq
      cases not_opensName_of_lead hlead
    · exact hlead
  rw [Ty.chars_of_lead_none hlead, List.append_assoc] at heq
  obtain ⟨hword, hafter⟩ := eq_of_append_eq (continues_of_isWord (h.isWord hlead))
    (continues_of_isWord (w := (Ty.base .raw).chars) (by decide)) (stops_afterWord hr)
    (stops_of_closes hs) heq
  have hraw : t.word = "unsafe" := String.toList_inj.mp hword
  obtain ⟨sig, rfl⟩ := h.of_keyword hlead (by rw [hraw]; decide)
  cases hflag : sig.isUnsafe with
  | false => simp [Ty.word, hflag] at hraw
  | true =>
    rw [← hafter] at hs
    simp [Ty.afterWord, hflag, Closes] at hs

theorem reads_struct {id : StructId} {name : String} {ts us : List Ty}
    (hts : ∀ t ∈ ts, Built N t) (hus : ∀ u ∈ us, Built N u) (hreads : ∀ t ∈ ts, Readable N t)
    (hr : Closes r) (hs : Closes s)
    (h : (Ty.struct id name ts).afterWord ++ r = (Ty.struct id name us).afterWord ++ s) :
    Ty.bares ts = Ty.bares us ∧ r = s := by
  have bracket_ne {x y : List Char} (hx : Closes x) : x ≠ '[' :: y := by
    rintro rfl
    simp [Closes] at hx
  cases ts with
  | nil =>
    cases us with
    | nil => exact ⟨rfl, h⟩
    | cons u us => exact (bracket_ne hr h).elim
  | cons t ts =>
    cases us with
    | nil => exact (bracket_ne hs h.symm).elim
    | cons u us =>
      have hlist := tail_eq h
      rw [List.append_assoc, List.append_assoc] at hlist
      exact reads_types (by decide) hts hus hreads hlist

theorem reads_function {sig sig' : FnSig} (hword : (Ty.function sig).word = (Ty.function sig').word)
    (hps : ∀ p ∈ sig.params, BuiltParam N p) (hqs : ∀ q ∈ sig'.params, BuiltParam N q)
    (hret : sig.ret ≠ .void → Built N sig.ret) (hret' : sig'.ret ≠ .void → Built N sig'.ret)
    (hreads : ∀ p ∈ sig.params, Readable N p.type) (hread : sig.ret ≠ .void → Readable N sig.ret)
    (hr : Closes r) (hs : Closes s)
    (h : (Ty.function sig).afterWord ++ r = (Ty.function sig').afterWord ++ s) :
    (Ty.function sig).bare = (Ty.function sig').bare ∧ r = s := by
  obtain ⟨ps, ret, _, _, isUnsafe⟩ := sig
  obtain ⟨qs, ret', _, _, isUnsafe'⟩ := sig'
  obtain rfl : isUnsafe = isUnsafe' := by
    cases isUnsafe <;> cases isUnsafe' <;> simp [Ty.word] at hword ⊢
  simp only [Ty.afterWord, List.append_assoc, List.append_cancel_left_eq, List.cons_append,
    Ty.paramKinds_eq_map] at h
  obtain ⟨hparams, harrow⟩ := reads_params hps hqs hreads h
  obtain ⟨hbare, hrest⟩ := reads_arrow hret hret' hread hr hs harrow
  simp only at hbare
  exact ⟨by simp [Ty.bare, hparams, hbare], hrest⟩

/-- Slices, arrays and maps begin alike and go on apart. -/
theorem Built.bracket_eq (ht : Built N t) (hu : Built N u) (hlead : t.lead = some '[')
    (h : t.chars ++ r = u.chars ++ s) :
    u.lead = some '[' ∧ t.sizePart = u.sizePart ∧ t.afterSize ++ r = u.afterSize ++ s := by
  have hlead' : u.lead = some '[' := (ht.lead_eq hu h).symm.trans hlead
  have sizes {t : Ty} : ∀ c ∈ t.sizePart, isSizeChar c = true := by
    cases t with
    | array => exact Ty.isSizeChar_of_mem_sizeText
    | _ => simp [Ty.sizePart]
  have stops {t : Ty} {r : List Char} (ht : Built N t) (hlead : t.lead = some '[') :
      ∀ c ∈ (t.afterSize ++ r).head?, isSizeChar c = false := by
    cases ht with
    | slice | array => rintro _ ⟨⟩; decide
    | map hk _ =>
      rw [Ty.afterSize, List.append_assoc]
      exact hk.not_isSizeChar
    | _ => cases hlead
  rw [Ty.chars_of_lead_bracket hlead, Ty.chars_of_lead_bracket hlead'] at h
  have htail := tail_eq h
  rw [List.append_assoc, List.append_assoc] at htail
  exact ⟨hlead', eq_of_append_eq sizes sizes (stops ht hlead) (stops hu hlead') htail⟩

/-! ## All types -/

theorem Built.readable (h : Built N t) : Readable N t := by
  induction h with
  | base hc hvoid =>
    intro u hu r s hr hs heq
    obtain ⟨hlead, hword, hafter⟩ := (Built.base hc hvoid).word_eq hu rfl hr hs heq
    obtain rfl := hu.of_primitive hlead hc hword.symm
    exact ⟨rfl, hafter⟩
  | rawPointer =>
    intro u hu r s hr hs heq
    have hlead := Built.rawPointer.lead_eq hu heq
    cases hu with
    | rawPointer => exact ⟨rfl, List.append_cancel_left heq⟩
    | pointer ht =>
      rw [Ty.chars_pointer, Ty.chars_pointer] at heq
      exact (ht.ne_raw hs hr (tail_eq heq).symm).elim
    | _ => cases hlead
  | pointer ht ih =>
    intro u hu r s hr hs heq
    have hlead := ht.pointer.lead_eq hu heq
    cases hu with
    | rawPointer =>
      rw [Ty.chars_pointer, Ty.chars_pointer] at heq
      exact (ht.ne_raw hr hs (tail_eq heq)).elim
    | pointer hu =>
      rw [Ty.chars_pointer, Ty.chars_pointer] at heq
      obtain ⟨hbare, hrest⟩ := ih _ hu hr hs (tail_eq heq)
      exact ⟨congrArg Ty.pointer hbare, hrest⟩
    | _ => cases hlead
  | reference ht ih =>
    intro u hu r s hr hs heq
    have hlead := ht.reference.lead_eq hu heq
    cases hu with
    | reference hu =>
      rw [Ty.chars_reference, Ty.chars_reference] at heq
      obtain ⟨hbare, hrest⟩ := ih _ hu hr hs (tail_eq heq)
      exact ⟨congrArg Ty.reference hbare, hrest⟩
    | _ => cases hlead
  | slice ht ih =>
    intro u hu r s hr hs heq
    obtain ⟨hlead, hsize, hafter⟩ := ht.slice.bracket_eq hu rfl heq
    cases hu with
    | slice hu =>
      obtain ⟨hbare, hrest⟩ := ih _ hu hr hs (tail_eq hafter)
      exact ⟨congrArg Ty.slice hbare, hrest⟩
    | array => exact (Ty.sizeText_ne_nil _ hsize.symm).elim
    | map hk _ =>
      rw [Ty.afterSize, Ty.afterSize, List.append_assoc] at hafter
      exact (close_cons_ne hk.not_closes (by decide) _ _ hafter).elim
    | _ => cases hlead
  | array ht ih =>
    intro u hu r s hr hs heq
    obtain ⟨hlead, hsize, hafter⟩ := ht.array.bracket_eq hu rfl heq
    cases hu with
    | slice | map => exact (Ty.sizeText_ne_nil _ hsize).elim
    | array hu =>
      obtain ⟨hbare, hrest⟩ := ih _ hu hr hs (tail_eq hafter)
      obtain rfl := Ty.sizeText_inj hsize
      exact ⟨congrArg (Ty.array · _) hbare, hrest⟩
    | _ => cases hlead
  | map hk hv ihk ihv =>
    intro u hu r s hr hs heq
    obtain ⟨hlead, hsize, hafter⟩ := (hk.map hv).bracket_eq hu rfl heq
    cases hu with
    | slice =>
      rw [Ty.afterSize, Ty.afterSize, List.append_assoc] at hafter
      exact (close_cons_ne hk.not_closes (by decide) _ _ hafter.symm).elim
    | array => exact (Ty.sizeText_ne_nil _ hsize.symm).elim
    | map hk' hv' =>
      rw [Ty.afterSize, Ty.afterSize, List.append_assoc, List.append_assoc] at hafter
      obtain ⟨hkey, hvalue⟩ := ihk _ hk' (by simp [Closes]) (by simp [Closes]) hafter
      have htail := tail_eq hvalue
      rw [List.append_assoc, List.append_assoc] at htail
      obtain ⟨hval, hrest⟩ := ihv _ hv' (by simp [Closes]) (by simp [Closes]) htail
      exact ⟨congrArg₂ Ty.map hkey hval, (List.cons.inj hrest).2⟩
    | _ => cases hlead
  | tuple hts hlen ih =>
    intro u hu r s hr hs heq
    have hlead := (Built.tuple hts hlen).lead_eq hu heq
    cases hu with
    | tuple hus _ =>
      rw [Ty.chars_tuple, Ty.chars_tuple] at heq
      have hlist := tail_eq heq
      rw [List.append_assoc, List.append_assoc] at hlist
      obtain ⟨hbares, hrest⟩ := reads_types (by decide) hts hus ih hlist
      exact ⟨congrArg Ty.tuple hbares, hrest⟩
    | _ => cases hlead
  | function hparams hvariadic hret ihparams ihret =>
    intro u hu r s hr hs heq
    obtain ⟨hlead, hword, hafter⟩ :=
      (Built.function hparams hvariadic hret).word_eq hu rfl hr hs heq
    obtain ⟨sig, rfl⟩ := hu.of_keyword hlead (by rw [← hword]; exact isSome_ofText_word _)
    cases hu with
    | function hparams' hvariadic' hret' =>
      exact reads_function hword (fun p hp => ⟨hparams p hp, hvariadic p hp⟩)
        (fun q hq => ⟨hparams' q hq, hvariadic' q hq⟩) hret hret' ihparams ihret hr hs hafter
  | struct hm hgs ih =>
    intro u hu r s hr hs heq
    obtain ⟨hlead, hword, hafter⟩ := (Built.struct hm hgs).word_eq hu rfl hr hs heq
    obtain ⟨us, rfl, hus⟩ := hu.of_meaning hlead hword hm
    obtain ⟨hbares, hrest⟩ := reads_struct hgs hus ih hr hs hafter
    exact ⟨congrArg (Ty.struct _ _) hbares, hrest⟩
  | generic hm =>
    intro u hu r s hr hs heq
    obtain ⟨hlead, hword, hafter⟩ := (Built.generic hm).word_eq hu rfl hr hs heq
    obtain rfl := hu.of_meaning hlead hword hm
    exact ⟨rfl, hafter⟩
  | trait hm =>
    intro u hu r s hr hs heq
    obtain ⟨hlead, hword, hafter⟩ := (Built.trait hm).word_eq hu rfl hr hs heq
    obtain rfl := hu.of_meaning hlead hword hm
    exact ⟨rfl, hafter⟩
  | enum hm =>
    intro u hu r s hr hs heq
    obtain ⟨hlead, hword, hafter⟩ := (Built.enum hm).word_eq hu rfl hr hs heq
    obtain rfl := hu.of_meaning hlead hword hm
    exact ⟨rfl, hafter⟩

/-- Types that a program can write are equal exactly when they have one structure. -/
theorem same_iff_bare_eq (ht : Built N t) (hu : Built N u) : (t == u) = true ↔ t.bare = u.bare := by
  refine ⟨fun h => ?_, Ty.same_of_bare_eq⟩
  have hkind : t.kind = u.kind := by
    obtain ⟨-, hkind⟩ := Bool.and_eq_true_iff.mp (show Ty.same t u = true from h)
    exact eq_of_beq hkind
  have hchars : t.chars ++ [] = u.chars ++ [] := by rw [Ty.chars, hkind]
  have hend : Closes [] := trivial
  exact (ht.readable u hu hend hend hchars).1

end Reading

/-- One parameter `T` and one struct `S`. -/
def sampleNames : Naming where
  meaning word := if word = "T" then some .parameter else if word = "S" then some (.struct 0) else none
  isName {word m} h := by
    have hword : word = "T" ∨ word = "S" := by grind
    rcases hword with rfl | rfl <;> exact ⟨by decide, by decide⟩
  notPrimitive {word m} h := by
    have hword : word = "T" ∨ word = "S" := by grind
    rcases hword with rfl | rfl <;> decide

/-- `fn(*unsafe, ...S[T]) -> [str:[4]T]`, the last parameter under some name. -/
def sampleFunction (name : String) : Ty :=
  .function
    { params :=
        [⟨"raw", .rawPointer, false, false, false⟩,
          ⟨name, .slice (.struct 0 "S" [.generic "T"]), true, true, false⟩]
      ret := .map (.base .str) (.array (.generic "T") (some 4))
      isMethod := false
      isGeneric := true
      isUnsafe := false }

theorem built_sampleFunction (name : String) : Built sampleNames (sampleFunction name) := by
  have hparameter : Built sampleNames (.generic "T") := .generic rfl
  have hstruct : Built sampleNames (.struct 0 "S" [.generic "T"]) :=
    .struct rfl (by simpa using hparameter)
  refine .function ?_ ?_ fun _ => .map (.base (by decide) (by decide)) hparameter.array
  · simpa [sampleFunction] using ⟨Built.rawPointer, hstruct.slice⟩
  · simp [Ty.isSlice]

theorem same_iff_bare_eq_sampleFunction :
    Built sampleNames (sampleFunction "xs") ∧ Built sampleNames (sampleFunction "ys") ∧
      ((sampleFunction "xs" == sampleFunction "ys") = true ↔
        (sampleFunction "xs").bare = (sampleFunction "ys").bare) :=
  ⟨built_sampleFunction _, built_sampleFunction _,
    same_iff_bare_eq (built_sampleFunction _) (built_sampleFunction _)⟩

end JaneCheck
