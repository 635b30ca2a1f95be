import JaneCheck.Proofs.Stages

/-!
# Files that cannot be parsed

A file that cannot be parsed counts as an empty one. The two checks, of the
sources and of the sources with the text of the file emptied, run on the same
declarations with the same setup, so they find the same. And since all that is
found lies in files that were parsed, the file itself has no findings.
-/

namespace JaneCheck

theorem Syntax.parse_empty (file : Nat) : Syntax.parse file "" = .ok [] := by
  have hread : Token.readAll file "" = .ok [⟨.eof, ⟨0, 0, file⟩⟩] := by
    unfold Token.readAll Token.readFrom
    rfl
  unfold Syntax.parse
  rw [hread]
  rfl

namespace Report

variable {options : Options} {sources : List Source} {k : Nat} {source : Source}
  {e : SyntaxError}

/-! ## Reports, file by file -/

theorem getElem?_files (sources : List Source) (i : Nat) :
    (sources.zip (parseAll sources))[i]? =
      sources[i]?.map fun s => (s, Syntax.parse i s.text) := by
  have hparsed : (parseAll sources)[i]? = sources[i]?.map fun s => Syntax.parse i s.text := by
    simp [parseAll, Function.comp_def]
  rw [List.zip_eq_zipWith, List.getElem?_zipWith, hparsed]
  cases sources[i]? <;> rfl

/-- The report on some sources that the table and the instances of their check
give. -/
def ofTable (sources : List Source) (t : Package × List StructId × Package.Instances) : Report where
  files := (sources.zip (parseAll sources)).zipIdx.map fun ((source, parsed), file) =>
    fileReport t.2.2.findings source file parsed
  combinations := combinationsOf t.1 t.2.2.ledger
  structOrder := t.2.1.map fun id => (t.1.struct id).name
  instances := t.2.2.layouts.toList

theorem check_eq (options : Options) (sources : List Source) :
    check options sources = (checkCollected (setupOf options sources) sources.length
      (Package.collect ((parseAll sources).map programOf))).map (ofTable sources) := by
  show (checkCollected (setupOf options sources) sources.length
    (Package.merge ((parseAll sources).map (·.toOption)))).bind _ = _
  rw [Option.map_eq_bind, merge_parsed]
  rfl

theorem getElem?_ofTable (t : Package × List StructId × Package.Instances) (i : Nat) :
    (ofTable sources t).files[i]? = sources[i]?.map fun s =>
      fileReport t.2.2.findings s i (Syntax.parse i s.text) := by
  show (List.map _ _)[i]? = _
  rw [List.getElem?_map, List.getElem?_zipIdx, getElem?_files]
  cases sources[i]? <;> simp

/-! ## Findings lie in files that can be parsed -/

theorem places_findings {F : Nat → Prop} {setup : Package.Setup} {files : Nat} {p : Package}
    {order : List StructId} {out : Package.Instances}
    (hF : ∀ {file s p}, sources[file]? = some s → Syntax.parse file s.text = .ok p → F file)
    (h : checkCollected setup files (Package.collect ((parseAll sources).map programOf)) =
      some (p, order, out)) :
    (∀ d ∈ out.findings.diags.toList, F d.span.file) ∧
      ∀ t ∈ out.findings.typings.toList, F t.span.file := by
  obtain ⟨S⟩ := exists_stages h
  have hcovered := Demand.covered_requests (sound_files hF) S
  exact ⟨hcovered.instances.diags, fun t ht => (hcovered.instances.typings t ht).2⟩

/-- A selection that takes nothing is empty after it was put in order. -/
theorem dropRepeats_eq_nil {same le : α → α → Bool} {select : α → Bool} {as : List α}
    (h : ∀ a ∈ as, select a = false) :
    dropRepeats same ((as.filter select).mergeSort le) = [] := by
  rw [List.eq_nil_iff_forall_not_mem]
  intro a ha
  obtain ⟨hmem, hselect⟩ := List.mem_filter.mp (List.mem_mergeSort.mp (mem_of_mem_dropRepeats ha))
  rw [h a hmem] at hselect
  cases hselect

/-- Nothing is found in the file. -/
def SilentIn (k : Nat) (r : Report) : Prop :=
  ∃ f, r.files[k]? = some f ∧ f.diags = [] ∧ f.typings = []

theorem silentIn_ofTable {t : Package × List StructId × Package.Instances}
    (hk : sources[k]? = some source)
    (hdiags : ∀ d ∈ t.2.2.findings.diags.toList, d.span.file ≠ k)
    (htypings : ∀ u ∈ t.2.2.findings.typings.toList, u.span.file ≠ k) :
    (ofTable sources t).SilentIn k := by
  refine ⟨fileReport t.2.2.findings source k (Syntax.parse k source.text), ?_, ?_, ?_⟩
  · rw [getElem?_ofTable, hk]
    rfl
  · exact dropRepeats_eq_nil fun d hd => beq_false_of_ne (hdiags d hd)
  · exact dropRepeats_eq_nil fun u hu => beq_false_of_ne (htypings u hu)

/-! ## Emptied files -/

/-- The sources with the text of a file emptied. -/
def emptied (sources : List Source) (k : Nat) : List Source :=
  sources.modify k fun s => { s with text := "" }

theorem getElem?_emptied (sources : List Source) (k i : Nat) :
    (emptied sources k)[i]? =
      if k = i then sources[i]?.map fun s => { s with text := "" } else sources[i]? := by
  unfold emptied
  rw [List.getElem?_modify]
  by_cases h : k = i
  · simp [h]
  · simp [h]

/-- The reports agree on all but the file. -/
structure AgreeBesides (k : Nat) (r r' : Report) : Prop where
  files (i : Nat) : i ≠ k → r.files[i]? = r'.files[i]?
  combinations : r.combinations = r'.combinations
  structOrder : r.structOrder = r'.structOrder
  instances : r.instances = r'.instances

theorem agreeBesides_emptied (t : Package × List StructId × Package.Instances) :
    AgreeBesides k (ofTable sources t) (ofTable (emptied sources k) t) where
  files i hi := by
    rw [getElem?_ofTable, getElem?_ofTable, getElem?_emptied, if_neg hi.symm]
  combinations := rfl
  structOrder := rfl
  instances := rfl

section Unparsed

variable (hk : sources[k]? = some source) (he : Syntax.parse k source.text = .error e)

include hk he

/-- What is kept of each file stays, if a file that cannot be parsed leaves what
an empty one does. -/
theorem map_emptied {f : Source → Except SyntaxError Syntax.Program → α}
    (hf : f source (.error e) = f { source with text := "" } (.ok [])) :
    ((emptied sources k).zip (parseAll (emptied sources k))).map (fun s => f s.1 s.2) =
      (sources.zip (parseAll sources)).map fun s => f s.1 s.2 := by
  apply List.ext_getElem?
  intro i
  rw [List.getElem?_map, List.getElem?_map, getElem?_files, getElem?_files, getElem?_emptied]
  by_cases h : k = i
  · subst h
    rw [if_pos rfl, hk]
    simp [he, hf, Syntax.parse_empty]
  · rw [if_neg h]

theorem setupOf_emptied (options : Options) :
    setupOf options (emptied sources k) = setupOf options sources := by
  have hlengths := map_emptied (f := parsedLength) hk he rfl
  unfold setupOf setupFor
  rw [hlengths]

omit hk he in
theorem map_programOf (sources : List Source) :
    (parseAll sources).map programOf =
      (sources.zip (parseAll sources)).map fun s => programOf s.2 := by
  apply List.ext_getElem?
  intro i
  rw [List.getElem?_map, List.getElem?_map, getElem?_files]
  simp [parseAll, Function.comp_def]

theorem programs_emptied :
    (parseAll (emptied sources k)).map programOf = (parseAll sources).map programOf := by
  rw [map_programOf, map_programOf]
  exact map_emptied (f := fun _ parsed => programOf parsed) hk he rfl

theorem checkCollected_emptied (options : Options) :
    checkCollected (setupOf options (emptied sources k)) (emptied sources k).length
        (Package.collect ((parseAll (emptied sources k)).map programOf)) =
      checkCollected (setupOf options sources) sources.length
        (Package.collect ((parseAll sources).map programOf)) := by
  have hlength : (emptied sources k).length = sources.length := by simp [emptied]
  rw [setupOf_emptied hk he, programs_emptied hk he, hlength]

end Unparsed

/-- A file that cannot be parsed counts as empty: emptying its text changes
nothing for the other files nor in the rest of the report, and the file itself
has no findings in either case. -/
theorem unparsed_counts_as_empty (options : Options) (hk : sources[k]? = some source)
    (he : Syntax.parse k source.text = .error e) :
    (check options sources = none ∧ check options (emptied sources k) = none) ∨
      ∃ r r', check options sources = some r ∧ check options (emptied sources k) = some r' ∧
        AgreeBesides k r r' ∧ r.SilentIn k ∧ r'.SilentIn k := by
  rw [check_eq, check_eq, checkCollected_emptied hk he]
  cases h : checkCollected (setupOf options sources) sources.length
      (Package.collect ((parseAll sources).map programOf)) with
  | none => exact .inl ⟨rfl, rfl⟩
  | some t =>
    -- file `k` is not among those that can be parsed
    have hF : ∀ {file s p}, sources[file]? = some s → Syntax.parse file s.text = .ok p →
        file ≠ k := by
      rintro file s p hs hp rfl
      rw [hk] at hs
      cases hs
      rw [he] at hp
      cases hp
    obtain ⟨hdiags, htypings⟩ := places_findings hF h
    have hk' : (emptied sources k)[k]? = some { source with text := "" } := by
      rw [getElem?_emptied, if_pos rfl, hk]
      rfl
    exact .inr ⟨ofTable sources t, ofTable (emptied sources k) t, rfl, rfl,
      agreeBesides_emptied t, silentIn_ofTable hk hdiags htypings,
      silentIn_ofTable hk' hdiags htypings⟩

/-- A file with a field that lacks its colon, and one that uses the struct. -/
def brokenPair : List Source :=
  [{ path := "pair.jn", text := "struct Pair { a int }" },
    { path := "main.jn", text := "fn main() { let p = Pair{} println(p) }" }]

set_option maxRecDepth 100000 in
theorem unparsed_counts_as_empty_brokenPair :
    ∃ r r', check {} brokenPair = some r ∧ check {} (emptied brokenPair 0) = some r' ∧
      AgreeBesides 0 r r' ∧ r.SilentIn 0 ∧ r'.SilentIn 0 := by
  have heval : (check {} brokenPair).isSome = true := by decide +kernel
  have hparse : (Syntax.parse 0 "struct Pair { a int }").toOption.isNone = true := by decide +kernel
  cases he : Syntax.parse 0 "struct Pair { a int }" with
  | ok p =>
    rw [he] at hparse
    cases hparse
  | error e =>
    refine (unparsed_counts_as_empty {} rfl he).resolve_left fun hnone => ?_
    rw [hnone.1] at heval
    cases heval

end Report

end JaneCheck
