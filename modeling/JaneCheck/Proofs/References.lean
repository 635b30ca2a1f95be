import JaneCheck.Proofs.Compounds
import Mathlib.Logic.Relation

/-!
# References between aliases

An alias refers to another when a name that stands for the other occurs in its
target. What has a meaning refers to nothing on a cycle: the aliases in it are
found from it in finitely many steps (`Denotes.acc`).

`Expands t u` says that `u` is `t` with every alias in it replaced by its target,
again and again. The expansion of a type expression denotes what the expression
denotes.
-/

namespace JaneCheck

open Relation (ReflTransGen TransGen)

open Syntax (TypeExpr)

namespace Syntax.TypeExpr

/-- No array in the type expression has a size. -/
def Unsized (t : TypeExpr) : Prop := ∀ size u span, ¬ (array (some size) u span).Occurs t

theorem unsized_of_parts {t : TypeExpr} (h : ∀ u ∈ t.parts, u.Unsized)
    (ht : ∀ size u span, t ≠ .array (some size) u span) : t.Unsized := by
  intro size u span ho
  cases ho with
  | self => exact ht size u span rfl
  | part hv ho => exact h _ hv size u span ho

theorem Unsized.part {t u : TypeExpr} (h : t.Unsized) (hu : u ∈ t.parts) : u.Unsized :=
  fun size v span ho => h size v span (.part hu ho)

end Syntax.TypeExpr

namespace Outline

variable {O : Outline} {id : AliasId} {t : TypeExpr}

/-- A name of the alias occurs in the type expression. -/
def Mentions (O : Outline) (t : TypeExpr) (id : AliasId) : Prop :=
  ∃ name gs span, (TypeExpr.named name gs span).Occurs t ∧
    O.referent? (fun _ => none) name.name = some (.defined (.typeAlias id))

/-- The target of the first alias mentions the second. -/
def Refers (O : Outline) (a b : AliasId) : Prop := O.Mentions (O.target a) b

/-- The type is what the target of the alias denotes. -/
def Stands (O : Outline) (id : AliasId) (u : Ty) : Prop :=
  O.Denotes (fun _ => none) (O.target id) u

theorem Mentions.part {u : TypeExpr} (hu : u ∈ t.parts) (h : O.Mentions u id) :
    O.Mentions t id := by
  obtain ⟨name, gs, span, ho, hid⟩ := h
  exact ⟨name, gs, span, .part hu ho, hid⟩

theorem Mentions.cases (h : O.Mentions t id) :
    (∃ name gs span, t = .named name gs span ∧
      O.referent? (fun _ => none) name.name = some (.defined (.typeAlias id))) ∨
    ∃ u ∈ t.parts, O.Mentions u id := by
  obtain ⟨name, gs, span, ho, hid⟩ := h
  cases ho with
  | self => exact .inl ⟨name, gs, span, rfl, hid⟩
  | part hu ho => exact .inr ⟨_, hu, name, gs, span, ho, hid⟩

/-! ## Cycles -/

/-- What is mentioned where there is a meaning refers to nothing without end. -/
theorem Denotes.acc {u : Ty} (h : O.Denotes (fun _ => none) t u) (hid : O.Mentions t id) :
    Acc (fun b a => O.Refers a b) id := by
  generalize hb : (fun _ => none : String → Option Ty) = b at h
  induction h using Denotes.inductionOnParts generalizing id with
  | known h | enum h | trait h =>
    subst hb
    rcases hid.cases with ⟨_, _, _, ht, hname⟩ | ⟨_, hpart, _⟩
    · cases ht
      rw [h] at hname
      cases hname
    · cases hpart
  | typeAlias h _ ih =>
    subst hb
    rcases hid.cases with ⟨_, _, _, ht, hname⟩ | ⟨_, hpart, _⟩
    · cases ht
      rw [h] at hname
      cases hname
      exact .intro _ fun a ha => ih ha rfl
    · cases hpart
  | struct h _ hlen _ _ ih =>
    subst hb
    rcases hid.cases with ⟨_, _, _, ht, hname⟩ | ⟨v, hpart, hv⟩
    · cases ht
      rw [h] at hname
      cases hname
    · obtain ⟨w, hw⟩ := exists_mem_zip hlen hpart
      exact ih _ hw hv rfl
  | compound hcompound hlen _ _ _ ih =>
    rcases hid.cases with ⟨_, _, _, ht, _⟩ | ⟨v, hpart, hv⟩
    · exact absurd ht (hcompound _ _ _)
    · obtain ⟨w, hw⟩ := exists_mem_zip hlen hpart
      exact ih _ hw hv hb

theorem not_transGen_of_acc {α : Type} {R : α → α → Prop} {a : α}
    (h : Acc (fun b a => R a b) a) : ¬ TransGen R a a := by
  induction h with
  | intro a _ ih =>
    intro hcycle
    obtain ⟨b, hab, hba⟩ := TransGen.head'_iff.mp hcycle
    exact ih b hab (.tail' hba hab)

/-- An alias on a cycle stands for nothing. -/
theorem not_stands_of_cycle {a : AliasId} (h : TransGen O.Refers a a) (u : Ty) :
    ¬ O.Stands a u := by
  intro hu
  exact not_transGen_of_acc (.intro a fun b hb => hu.acc hb) h

/-! ## Expansion -/

/-- The second type expression is the first with every alias replaced by the expansion
of its target. An alias takes no type arguments. -/
inductive Expands (O : Outline) : TypeExpr → TypeExpr → Prop
  | typeAlias {name span id u}
      (h : O.referent? (fun _ => none) name.name = some (.defined (.typeAlias id)))
      (hu : Expands O (O.target id) u) : Expands O (.named name [] span) u
  | named {name gs span gs'}
      (h : ∀ id, O.referent? (fun _ => none) name.name ≠ some (.defined (.typeAlias id)))
      (hlen : gs'.length = gs.length) (hgs : ∀ e ∈ gs.zip gs', Expands O e.1 e.2) :
      Expands O (.named name gs span) (.named name gs' span)
  | pointer {t span u} (h : Expands O t u) : Expands O (.pointer t span) (.pointer u span)
  | reference {t span u} (h : Expands O t u) : Expands O (.reference t span) (.reference u span)
  | rawPointer {span} : Expands O (.rawPointer span) (.rawPointer span)
  | slice {t span u} (h : Expands O t u) : Expands O (.slice t span) (.slice u span)
  | array {t span u} (h : Expands O t u) : Expands O (.array none t span) (.array none u span)
  | map {k v span k' v'} (hk : Expands O k k') (hv : Expands O v v') :
      Expands O (.map k v span) (.map k' v' span)
  | function {ts variadic r span ts' r'} (hlen : ts'.length = ts.length)
      (hts : ∀ e ∈ ts.zip ts', Expands O e.1 e.2) (hsome : r'.isSome = r.isSome)
      (hret : ∀ t ∈ r, ∀ u ∈ r', Expands O t u) :
      Expands O (.function ts variadic r span) (.function ts' variadic r' span)
  | tuple {ts span ts'} (hlen : ts'.length = ts.length)
      (hts : ∀ e ∈ ts.zip ts', Expands O e.1 e.2) : Expands O (.tuple ts span) (.tuple ts' span)

/-- Members at the same place of two lists that are paired with a third. -/
theorem exists_mem_zip_zip {as : List α} {bs : List β} {cs : List γ} (hlen : cs.length = as.length)
    (hlen' : bs.length = cs.length) {e : α × β} (he : e ∈ as.zip bs) :
    ∃ c, (e.1, c) ∈ as.zip cs ∧ (c, e.2) ∈ cs.zip bs := by
  induction as generalizing bs cs with
  | nil => simp at he
  | cons a as ih =>
    cases cs with
    | nil => simp at hlen
    | cons c cs =>
      cases bs with
      | nil => simp at he
      | cons b bs =>
        rcases List.mem_cons.mp he with rfl | he
        · exact ⟨c, List.mem_cons_self, List.mem_cons_self⟩
        · obtain ⟨d, hd, hd'⟩ := ih (by simpa using hlen) (by simpa using hlen') he
          exact ⟨d, List.mem_cons_of_mem _ hd, List.mem_cons_of_mem _ hd'⟩

theorem Expands.unsized {t u : TypeExpr} (h : O.Expands t u) : u.Unsized := by
  have hpaired : ∀ {ts ts' : List TypeExpr}, ts'.length = ts.length →
      (∀ e ∈ ts.zip ts', e.2.Unsized) → ∀ v ∈ ts', v.Unsized := by
    intro ts ts' hlen hts v hv
    have hsnd : (ts.zip ts').map (·.2) = ts' := List.map_snd_zip (Nat.le_of_eq hlen)
    rw [← hsnd] at hv
    obtain ⟨e, he, rfl⟩ := List.mem_map.mp hv
    exact hts e he
  induction h with
  | typeAlias _ _ ih => exact ih
  | named _ hlen _ ih => exact TypeExpr.unsized_of_parts (hpaired hlen ih) (by simp)
  | rawPointer => exact TypeExpr.unsized_of_parts (by simp) (by simp)
  | pointer _ ih | reference _ ih | slice _ ih | array _ ih =>
    exact TypeExpr.unsized_of_parts (by simpa using ih) (by simp)
  | map _ _ ihk ihv =>
    refine TypeExpr.unsized_of_parts (fun u hu => ?_) (by simp)
    rcases List.mem_cons.mp hu with rfl | hu
    · exact ihk
    · rw [List.mem_singleton.mp hu]
      exact ihv
  | @function ts variadic r span ts' r' hlen _ hsome _ ih ihret =>
    refine TypeExpr.unsized_of_parts (fun u hu => ?_) (by simp)
    rcases List.mem_append.mp hu with hu | hu
    · exact hpaired hlen ih u hu
    · have hu := Option.mem_toList.mp hu
      rw [hu] at hsome
      obtain ⟨t, ht⟩ := Option.isSome_iff_exists.mp hsome.symm
      exact ihret t ht u hu
  | tuple hlen _ ih => exact TypeExpr.unsized_of_parts (hpaired hlen ih) (by simp)

/-- The expansion denotes nothing else. -/
theorem Expands.denotes {t t' : TypeExpr} {u : Ty} (h : O.Expands t t')
    (hu : O.Denotes (fun _ => none) t' u) : O.Denotes (fun _ => none) t u := by
  have hlist : ∀ {ts ts' : List TypeExpr} {us : List Ty}, ts'.length = ts.length →
      us.length = ts'.length →
      (∀ e ∈ ts.zip ts', ∀ {u}, O.Denotes (fun _ => none) e.2 u → O.Denotes (fun _ => none) e.1 u) →
      (∀ e ∈ ts'.zip us, O.Denotes (fun _ => none) e.1 e.2) →
      ∀ e ∈ ts.zip us, O.Denotes (fun _ => none) e.1 e.2 := by
    intro ts ts' us hlen hlen' hts hus e he
    obtain ⟨c, hc, hc'⟩ := exists_mem_zip_zip hlen hlen' he
    exact hts _ hc (hus _ hc')
  induction h generalizing u with
  | typeAlias h _ ih => exact .typeAlias h (ih hu)
  | @named name gs span gs' h hlen _ ih =>
    cases hu with
    | known hk =>
      rw [List.length_nil] at hlen
      rw [List.length_eq_zero_iff.mp hlen.symm]
      exact .known hk
    | typeAlias hk => exact absurd hk (h _)
    | enum hk =>
      rw [List.length_nil] at hlen
      rw [List.length_eq_zero_iff.mp hlen.symm]
      exact .enum hk
    | trait hk =>
      rw [List.length_nil] at hlen
      rw [List.length_eq_zero_iff.mp hlen.symm]
      exact .trait hk
    | struct hk harity hlen' hus henum =>
      exact .struct hk (harity.trans hlen) (hlen'.trans hlen)
        (hlist hlen hlen' (fun e he _ hd => ih e he hd) hus) henum
  | pointer _ ih =>
    cases hu with
    | pointer hu hr hp => exact .pointer (ih hu) hr hp
  | reference _ ih =>
    cases hu with
    | reference hu hv => exact .reference (ih hu) hv
  | rawPointer => exact hu
  | slice _ ih =>
    cases hu with
    | slice hu => exact .slice (ih hu)
  | array _ ih =>
    cases hu with
    | array hu hn => exact .array (ih hu) hn
  | map _ _ ihk ihv =>
    cases hu with
    | map hk hv => exact .map (ihk hk) (ihv hv)
  | @function ts variadic r span ts' r' hlen _ hsome _ ih ihret =>
    cases hu with
    | function hlen' hus hret hvoid =>
      refine .function (hlen'.trans hlen) (hlist hlen hlen' (fun e he _ hd => ih e he hd) hus) ?_ ?_
      · intro t ht
        rw [ht] at hsome
        obtain ⟨v, hv⟩ := Option.isSome_iff_exists.mp hsome
        exact ihret t ht v hv (hret v hv)
      · intro hr
        rw [hr] at hsome
        exact hvoid (Option.not_isSome_iff_eq_none.mp (by simp [hsome]))
  | tuple hlen _ ih =>
    cases hu with
    | tuple hlen' hus =>
      exact .tuple (hlen'.trans hlen) (hlist hlen hlen' (fun e he _ hd => ih e he hd) hus)

/-- What has a meaning has an expansion, which has it too. -/
theorem Denotes.exists_expansion (hO : ∀ id, (O.target id).Unsized) {t : TypeExpr} {u : Ty}
    (h : O.Denotes (fun _ => none) t u) (ht : t.Unsized) :
    ∃ t', O.Expands t t' ∧ O.Denotes (fun _ => none) t' u := by
  have hlist : ∀ {ts : List TypeExpr} {us : List Ty}, us.length = ts.length →
      (∀ e ∈ ts.zip us, ∃ t', O.Expands e.1 t' ∧ O.Denotes (fun _ => none) t' e.2) →
      ∃ ts' : List TypeExpr, ts'.length = ts.length ∧ (∀ e ∈ ts.zip ts', O.Expands e.1 e.2) ∧
        ∀ e ∈ ts'.zip us, O.Denotes (fun _ => none) e.1 e.2 := by
    intro ts us hlen hts
    induction ts generalizing us with
    | nil => exact ⟨[], rfl, by simp, by simp⟩
    | cons t ts ih =>
      cases us with
      | nil => simp at hlen
      | cons u us =>
        obtain ⟨t', hexp, hden⟩ := hts (t, u) List.mem_cons_self
        obtain ⟨ts', hlen', hexps, hdens⟩ := ih (by simpa using hlen)
          fun e he => hts e (List.mem_cons_of_mem _ he)
        exact ⟨t' :: ts', congrArg (· + 1) hlen', List.forall_mem_cons.mpr ⟨hexp, hexps⟩,
          List.forall_mem_cons.mpr ⟨hden, hdens⟩⟩
  generalize hb : (fun _ => none : String → Option Ty) = b at h
  induction h with
  | @known _ name span _ h | @enum _ name span _ h | @trait _ name span _ h =>
    subst hb
    have hexp : O.Expands (.named name [] span) (.named name [] span) := by
      refine .named (fun id hid => ?_) rfl (by simp)
      rw [h] at hid
      cases hid
    first
    | exact ⟨_, hexp, .known h⟩
    | exact ⟨_, hexp, .enum h⟩
    | exact ⟨_, hexp, .trait h⟩
  | typeAlias h _ ih =>
    subst hb
    obtain ⟨t', hexp, hden⟩ := ih (hO _) rfl
    exact ⟨t', .typeAlias h hexp, hden⟩
  | @struct _ name gs span id us h harity hlen _ henum ih =>
    subst hb
    obtain ⟨gs', hlen', hexps, hdens⟩ := hlist hlen fun e he =>
      ih e he (ht.part (List.of_mem_zip he).1) rfl
    refine ⟨_, .named (fun id hid => ?_) hlen' hexps, ?_⟩
    · rw [h] at hid
      cases hid
    · exact .struct h (harity.trans hlen'.symm) (hlen.trans hlen'.symm) hdens henum
  | pointer _ hr hp ih =>
    obtain ⟨t', hexp, hden⟩ := ih (ht.part List.mem_cons_self) hb
    subst hb
    exact ⟨_, .pointer hexp, .pointer hden hr hp⟩
  | reference _ hv ih =>
    obtain ⟨t', hexp, hden⟩ := ih (ht.part List.mem_cons_self) hb
    subst hb
    exact ⟨_, .reference hexp, .reference hden hv⟩
  | rawPointer => exact ⟨_, .rawPointer, .rawPointer⟩
  | slice _ ih =>
    obtain ⟨t', hexp, hden⟩ := ih (ht.part List.mem_cons_self) hb
    subst hb
    exact ⟨_, .slice hexp, .slice hden⟩
  | @array _ size t span u n _ hn ih =>
    obtain ⟨t', hexp, hden⟩ := ih (ht.part List.mem_cons_self) hb
    subst hb
    cases size with
    | none => exact ⟨_, .array hexp, .array hden hn⟩
    | some size => exact absurd .self (ht size t span)
  | map _ _ ihk ihv =>
    obtain ⟨k', hkexp, hkden⟩ := ihk (ht.part List.mem_cons_self) hb
    obtain ⟨v', hvexp, hvden⟩ := ihv (ht.part (List.mem_cons_of_mem _ List.mem_cons_self)) hb
    subst hb
    exact ⟨_, .map hkexp hvexp, .map hkden hvden⟩
  | @function _ ts variadic r span us ret hlen _ hret hvoid ih ihret =>
    subst hb
    obtain ⟨ts', hlen', hexps, hdens⟩ := hlist hlen fun e he =>
      ih e he (ht.part (List.mem_append_left _ (List.of_mem_zip he).1)) rfl
    cases r with
    | none =>
      refine ⟨.function ts' variadic none span, .function hlen' hexps rfl (by simp), ?_⟩
      exact .function (hlen.trans hlen'.symm) hdens (by simp) hvoid
    | some t =>
      obtain ⟨t', hexp, hden⟩ := ihret t rfl (ht.part (List.mem_append_right _ (by simp))) rfl
      refine ⟨.function ts' variadic (some t') span, .function hlen' hexps rfl ?_, ?_⟩
      · simpa using hexp
      · exact .function (hlen.trans hlen'.symm) hdens (by simpa using hden) (by simp)
  | tuple hlen _ ih =>
    subst hb
    obtain ⟨ts', hlen', hexps, hdens⟩ := hlist hlen fun e he =>
      ih e he (ht.part (List.of_mem_zip he).1) rfl
    exact ⟨_, .tuple hlen' hexps, .tuple (hlen.trans hlen'.symm) hdens⟩

end Outline

/-- Nothing is found of the aliases of the package yet, and no array in their targets
has a size. -/
structure Package.Unresolved (p : Package) : Prop where
  types : ∀ id, (p.typeAlias id).type = none
  unbroken : p.brokenAliases = []
  known : ∀ {name id}, p.lookup? name = some (.typeAlias id) → id < p.aliases.size
  unsized : ∀ id, (p.typeAlias id).decl.target.Unsized

end JaneCheck
