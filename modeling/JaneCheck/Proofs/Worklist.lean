import JaneCheck.Package.Instances

/-!
# The queue of requests

`serveLevels` serves the requests level by level. `Drains` is the same work as
a queue: requests are taken from the front, each with its depth, and what the
check of a combination asks for joins the end, one deeper. The events of a run
are the checks it made and the requests it refused, in order.

A run of the queue is what the invariants are proved about, one case for each
kind of turn; `drains_serveLevels` says that the levels are a run of it.
-/

namespace JaneCheck

instance : ReflBEq Ty where
  rfl {t} := by simp [BEq.beq, Ty.same]

variable {t : Template} {types : List Ty}

namespace Ledger

variable {l : Ledger}

theorem contains_iff :
    l.contains t types = true ↔ ∃ e ∈ l.entries, e.1 = t ∧ (e.2 == types) = true := by
  simp only [contains, combinations, Combinations.contains, List.any_eq_true, List.mem_map,
    List.mem_filter, beq_iff_eq]
  constructor
  · rintro ⟨_, ⟨e, ⟨he, ht⟩, rfl⟩, h⟩
    exact ⟨e, he, ht, h⟩
  · rintro ⟨e, he, ht, h⟩
    exact ⟨e.2, ⟨e, ⟨he, ht⟩, rfl⟩, h⟩

/-- No combination is on record twice. -/
def Distinct (l : Ledger) : Prop :=
  l.entries.Pairwise fun a b => ¬(a.1 = b.1 ∧ (a.2 == b.2) = true)

theorem distinct_insert (h : l.Distinct) (hnew : l.contains t types = false) :
    (l.insert t types).Distinct := by
  refine List.pairwise_append.mpr ⟨h, List.pairwise_singleton .., ?_⟩
  rintro e he _ hx ⟨ht, hb⟩
  rw [List.mem_singleton] at hx
  subst hx
  rw [contains_iff.mpr ⟨e, he, ht, hb⟩] at hnew
  cases hnew

theorem Distinct.combinations (h : l.Distinct) (t : Template) :
    (l.combinations t).list.Pairwise fun a b => (a == b) = false := by
  refine List.pairwise_map.mpr ((h.filter _).imp_of_mem ?_)
  intro a b ha hb hne
  simp only [List.mem_filter, beq_iff_eq] at ha hb
  exact Bool.eq_false_iff.mpr fun hab => hne ⟨ha.2.trans hb.2.symm, hab⟩

theorem combinations_insert (l : Ledger) (t u : Template) (types : List Ty) :
    ((l.insert t types).combinations u).list =
      (l.combinations u).list ++ if t = u then [types] else [] := by
  by_cases h : t = u <;> simp [combinations, insert, List.filter_append, h]

end Ledger

namespace Findings

@[simp] theorem diags_append (a b : Findings) : (a ++ b).diags = a.diags ++ b.diags := rfl

@[simp] theorem typings_append (a b : Findings) : (a ++ b).typings = a.typings ++ b.typings := rfl

@[simp] theorem requests_append (a b : Findings) :
    (a ++ b).requests = a.requests ++ b.requests := rfl

end Findings

namespace Package.Instances

/-- Requests in the order of service, each with its depth. -/
abbrev Queue := List (Request × Nat)

/-- Requests that are served at the same depth. -/
def atDepth (d : Nat) (rs : List Request) : Queue := rs.map (·, d)

/-- The state without the requests of the next level. -/
def settled (i : Instances) : Instances :=
  { i with findings := { i.findings with requests := #[] } }

/-- What a turn of the queue does about a request that is not on record. -/
inductive Event where
  | check (r : Request) (c : Checked)
  | refuse (r : Request)

namespace Event

/-- The request that a turn was about. -/
def request : Event → Request
  | check r _ | refuse r => r

/-- The combination that was checked. -/
def combination? : Event → Option (Template × List Ty)
  | check r _ => some (r.template, r.types)
  | refuse _ => none

/-- The requests that join the queue. -/
def requests : Event → List Request
  | check _ c => c.findings.requests.toList
  | refuse _ => []

/-- The diagnostics that are pushed. -/
def diags (p : Package) : Event → List Diagnostic
  | check _ c => c.findings.diags.toList
  | refuse r => [⟨.instantiationLimit (p.templateName r.template), r.span⟩]

end Event

/-- `Drains p check limit queue i events out`: serving the queue from state `i`
ends, with the empty queue, in state `out`. -/
inductive Drains (p : Package) (check : Template → List Ty → Option Checked) (limit : Nat) :
    Queue → Instances → List Event → Instances → Prop where
  | done (i : Instances) : Drains p check limit [] i [] i
  | known {r : Request} {d : Nat} {queue : Queue} {i out : Instances} {events : List Event} :
      i.ledger.contains r.template r.types = true → Drains p check limit queue i events out →
      Drains p check limit ((r, d) :: queue) i events out
  | refuse {r : Request} {d : Nat} {queue : Queue} {i out : Instances} {events : List Event} :
      i.ledger.contains r.template r.types = false → limit ≤ d →
      Drains p check limit queue (i.refuse p r) events out →
      Drains p check limit ((r, d) :: queue) i (.refuse r :: events) out
  | check {r : Request} {d : Nat} {queue : Queue} {i out : Instances} {events : List Event}
      {c : Checked} :
      i.ledger.contains r.template r.types = false → d < limit →
      check r.template r.types = some c →
      Drains p check limit (queue ++ atDepth (d + 1) c.findings.requests.toList)
        (i.enter p r c).settled events out →
      Drains p check limit ((r, d) :: queue) i (.check r c :: events) out

section Runs

variable {p : Package} {check : Template → List Ty → Option Checked} {limit : Nat}
  {queue : Queue} {i j out : Instances} {events : List Event} {r : Request}

/-! ## What a run leaves -/

section Left

variable (h : Drains p check limit queue i events out)

include h

theorem Drains.entries :
    out.ledger.entries = i.ledger.entries ++ events.filterMap Event.combination? := by
  induction h with
  | done => simp
  | known _ _ ih => exact ih
  | refuse _ _ _ ih => exact ih
  | check _ _ _ _ ih =>
    rw [ih]
    simp [settled, enter, Ledger.insert, Event.combination?]

theorem Drains.contains_mono (hc : i.ledger.contains t types = true) :
    out.ledger.contains t types = true := by
  obtain ⟨e, he, hs⟩ := Ledger.contains_iff.mp hc
  refine Ledger.contains_iff.mpr ⟨e, ?_, hs⟩
  rw [h.entries]
  exact List.mem_append_left _ he

theorem Drains.diags :
    out.findings.diags.toList = i.findings.diags.toList ++ events.flatMap (Event.diags p) := by
  induction h with
  | done => simp
  | known _ _ ih => exact ih
  | refuse _ _ _ ih =>
    rw [ih]
    simp [Instances.refuse, Event.diags]
  | check _ _ _ _ ih =>
    rw [ih]
    simp [settled, enter, Event.diags]

/-- The layouts grow by those of the structs that were checked. -/
theorem Drains.layouts {l : StructInstance} (hl : l ∈ out.layouts.toList) :
    l ∈ i.layouts.toList ∨ ∃ r c, .check r c ∈ events ∧ check r.template r.types = some c ∧
      r.template = .struct l.id ∧ r.types = l.generics ∧ c.layout = l.fields := by
  induction h with
  | done => exact .inl hl
  | known _ _ ih => exact ih hl
  | refuse _ _ _ ih =>
    rcases ih hl with hl | ⟨r, c, he, h⟩
    · exact .inl hl
    · exact .inr ⟨r, c, List.mem_cons_of_mem _ he, h⟩
  | @check r _ _ i _ _ c _ _ hck _ ih =>
    rcases ih hl with hl | ⟨r', c', he, h⟩
    · dsimp only [settled, enter] at hl
      split at hl
      next id ht =>
        rw [Array.toList_push, List.mem_append, List.mem_singleton] at hl
        rcases hl with hl | rfl
        · exact .inl hl
        · exact .inr ⟨r, c, List.mem_cons_self, hck, ht, rfl, rfl⟩
      next => exact .inl hl
    · exact .inr ⟨r', c', List.mem_cons_of_mem _ he, h⟩

/-- Every request of the queue, from the start or joined later, ends on record
or refused. -/
theorem Drains.settles (hr : r ∈ queue.map (·.1) ++ events.flatMap Event.requests) :
    out.ledger.contains r.template r.types = true ∨ .refuse r ∈ events := by
  induction h with
  | done => simp at hr
  | known hc hrun ih =>
    simp only [List.map_cons, List.cons_append, List.mem_cons] at hr
    rcases hr with rfl | hr
    · exact .inl (hrun.contains_mono hc)
    · exact ih hr
  | refuse _ _ _ ih =>
    simp only [List.map_cons, List.cons_append, List.mem_cons, List.flatMap_cons, Event.requests,
      List.nil_append] at hr ⊢
    rcases hr with rfl | hr
    · exact .inr (.inl rfl)
    · exact (ih hr).imp_right .inr
  | @check r' _ _ i _ _ c _ _ _ hrun ih =>
    simp only [List.map_cons, List.cons_append, List.mem_cons] at hr
    rcases hr with rfl | hr
    · refine .inl (hrun.contains_mono (Ledger.contains_iff.mpr ⟨(r.template, r.types), ?_, rfl, ?_⟩))
      · simp [settled, enter, Ledger.insert]
      · exact BEq.rfl
    · refine (ih ?_).imp_right (List.mem_cons_of_mem _)
      simpa [atDepth, Event.requests, or_assoc, Function.comp_def] using hr

end Left

/-! ## The record and the layouts -/

/-- No combination is on record twice, and the layouts of a struct are those of
its combinations in their order. -/
structure Balanced (i : Instances) : Prop where
  distinct : i.ledger.Distinct
  layouts (id : StructId) : (i.layouts.toList.filter (·.id == id)).map (·.generics) =
    (i.ledger.combinations (.struct id)).list

theorem balanced_enter {c : Checked} (h : Balanced i)
    (hnew : i.ledger.contains r.template r.types = false) : Balanced (i.enter p r c) where
  distinct := Ledger.distinct_insert h.distinct hnew
  layouts id := by
    have hl := h.layouts id
    cases ht : r.template with
    | func f => simp [enter, ht, Ledger.combinations_insert, hl]
    | struct s =>
      by_cases hs : s = id <;>
        simp [enter, ht, Ledger.combinations_insert, List.filter_append, hl, hs]

theorem Drains.balanced (h : Drains p check limit queue i events out) (hi : Balanced i) :
    Balanced out := by
  induction h with
  | done => exact hi
  | known _ _ ih => exact ih hi
  | refuse _ _ _ ih => exact ih ⟨hi.distinct, hi.layouts⟩
  | @check r _ _ _ _ _ c hnew _ _ _ ih =>
    have he : Balanced (enter p _ r c) := balanced_enter hi hnew
    exact ih ⟨he.distinct, he.layouts⟩

/-! ## Levels are a run of the queue -/

/-- What serving a request does. -/
theorem serve_cases {last : Bool} (h : serve p check last i r = some j) :
    (i.ledger.contains r.template r.types = true ∧ j = i) ∨
      (i.ledger.contains r.template r.types = false ∧ last = true ∧ j = i.refuse p r) ∨
      (i.ledger.contains r.template r.types = false ∧ last = false ∧
        ∃ c, check r.template r.types = some c ∧ j = i.enter p r c) := by
  unfold serve at h
  split at h
  · next hc => exact .inl ⟨hc, by simpa using h.symm⟩
  · next hc =>
    rw [Bool.not_eq_true] at hc
    split at h
    · next hl => exact .inr (.inl ⟨hc, hl, by simpa using h.symm⟩)
    · next hl =>
      rw [Bool.not_eq_true] at hl
      obtain ⟨c, hck, hj⟩ := Option.bind_eq_some_iff.mp h
      exact .inr (.inr ⟨hc, hl, c, hck, by simpa using hj.symm⟩)

/-- Serving the requests of one depth, with those of the next waiting behind. -/
theorem drains_level {d : Nat} {rs : List Request}
    (h : rs.foldlM (serve p check (limit ≤ d)) i = some j)
    (hrest : Drains p check limit (atDepth (d + 1) j.findings.requests.toList) j.settled events out) :
    ∃ events', Drains p check limit
      (atDepth d rs ++ atDepth (d + 1) i.findings.requests.toList) i.settled events' out := by
  induction rs generalizing i with
  | nil =>
    simp only [List.foldlM_nil, Option.pure_def, Option.some.injEq] at h
    subst h
    exact ⟨events, hrest⟩
  | cons r rs ih =>
    rw [List.foldlM_cons] at h
    obtain ⟨k, hk, h⟩ := Option.bind_eq_some_iff.mp h
    obtain ⟨ev, hev⟩ := ih h
    rcases serve_cases hk with ⟨hc, rfl⟩ | ⟨hc, hl, rfl⟩ | ⟨hc, hl, c, hck, rfl⟩
    · exact ⟨ev, .known hc hev⟩
    · exact ⟨.refuse r :: ev, .refuse hc (by simpa using hl) hev⟩
    · refine ⟨.check r c :: ev, .check hc (by simpa using hl) hck ?_⟩
      simpa [atDepth, enter, settled] using hev

/-- Beyond the last level nothing new is asked for. -/
theorem requests_of_last {rs : List Request} (h : rs.foldlM (serve p check true) i = some j) :
    j.findings.requests = i.findings.requests := by
  induction rs generalizing i with
  | nil =>
    simp only [List.foldlM_nil, Option.pure_def, Option.some.injEq] at h
    rw [h]
  | cons r rs ih =>
    rw [List.foldlM_cons] at h
    obtain ⟨k, hk, h⟩ := Option.bind_eq_some_iff.mp h
    rw [ih h]
    rcases serve_cases hk with ⟨_, rfl⟩ | ⟨_, _, rfl⟩ | ⟨_, hl, _⟩
    · rfl
    · rfl
    · cases hl

theorem settled_of_empty (h : i.findings.requests = #[]) : i.settled = i := by
  simp [settled, ← h]

/-- Serving `n` levels is a run of the queue whose requests are `n` levels above
the limit. -/
theorem drains_serveLevels {n d : Nat} (hd : d + n = limit)
    (h : serveLevels p check n i = some out) :
    ∃ events, Drains p check limit (atDepth d i.findings.requests.toList) i.settled events out := by
  induction n generalizing i d with
  | zero =>
    have hl : decide (limit ≤ d) = true := decide_eq_true (by omega)
    have hfold : i.findings.requests.toList.foldlM (serve p check (limit ≤ d)) i.settled =
        some out := by
      rw [hl]; exact h
    have hreq : out.findings.requests = #[] := requests_of_last (i := i.settled) h
    have hdone : Drains p check limit (atDepth (d + 1) out.findings.requests.toList) out.settled
        [] out := by
      rw [hreq, settled_of_empty hreq]; exact .done out
    obtain ⟨ev, hev⟩ := drains_level hfold hdone
    exact ⟨ev, by simpa [settled, atDepth] using hev⟩
  | succ n ih =>
    have hl : decide (limit ≤ d) = false := decide_eq_false (by omega)
    unfold serveLevels at h
    split at h
    · next he =>
      have he : i.findings.requests = #[] := by simpa using he
      simp only [Option.pure_def, Option.some.injEq] at h
      subst h
      exact ⟨[], by rw [settled_of_empty he, he]; exact .done i⟩
    · obtain ⟨j, hj, h⟩ := Option.bind_eq_some_iff.mp h
      obtain ⟨ev, hev⟩ := ih (d := d + 1) (by omega) h
      have hfold : i.findings.requests.toList.foldlM (serve p check (limit ≤ d)) i.settled =
          some j := by
        rw [hl]; exact hj
      obtain ⟨ev', hev'⟩ := drains_level hfold hev
      exact ⟨ev', by simpa [settled, atDepth] using hev'⟩

/-- The queue leaves no choice. -/
theorem Drains.unique {events' : List Event} {out' : Instances}
    (h : Drains p check limit queue i events out)
    (h' : Drains p check limit queue i events' out') : events' = events ∧ out' = out := by
  induction h generalizing events' out' with
  | done => cases h'; exact ⟨rfl, rfl⟩
  | known hc _ ih =>
    cases h' with
    | known _ h' => exact ih h'
    | refuse hn _ _ => rw [hc] at hn; cases hn
    | check hn _ _ _ => rw [hc] at hn; cases hn
  | refuse hn hl _ ih =>
    cases h' with
    | known hc _ => rw [hn] at hc; cases hc
    | refuse _ _ h' => exact ⟨by rw [(ih h').1], (ih h').2⟩
    | check _ hlt _ _ => omega
  | check hn hlt hck _ ih =>
    cases h' with
    | known hc _ => rw [hn] at hc; cases hc
    | refuse _ hl _ => omega
    | check _ _ hck' h' =>
      rw [hck] at hck'
      cases hck'
      exact ⟨by rw [(ih h').1], (ih h').2⟩

end Runs

/-! ## Every run ends -/

section Total

variable (p : Package) (check : Template → List Ty → Checked)

theorem serve_total (last : Bool) (i : Instances) (r : Request) :
    ∃ j, serve p (fun t types => some (check t types)) last i r = some j := by
  unfold serve
  split
  · exact ⟨i, rfl⟩
  · split
    · exact ⟨_, rfl⟩
    · exact ⟨_, rfl⟩

theorem serveAll_total (last : Bool) (rs : List Request) (i : Instances) :
    ∃ j, rs.foldlM (serve p (fun t types => some (check t types)) last) i = some j := by
  induction rs generalizing i with
  | nil => exact ⟨i, rfl⟩
  | cons r rs ih =>
    obtain ⟨k, hk⟩ := serve_total p check last i r
    obtain ⟨j, hj⟩ := ih k
    exact ⟨j, by rw [List.foldlM_cons, hk]; exact hj⟩

theorem serveLevels_total (n : Nat) (i : Instances) :
    ∃ out, serveLevels p (fun t types => some (check t types)) n i = some out := by
  induction n generalizing i with
  | zero => exact serveAll_total p check true _ _
  | succ n ih =>
    unfold serveLevels
    split
    · exact ⟨i, rfl⟩
    · obtain ⟨j, hj⟩ := serveAll_total p check false
        i.findings.requests.toList i.settled
      obtain ⟨out, hout⟩ := ih j
      exact ⟨out, by rw [show serveLevel p _ false i = some j from hj]; exact hout⟩

end Total

/-- Whatever the checks ask for, serving the requests of `found` ends, and it is
the one run of the queue. No list of a template has two equal members; what is
on record is what was checked, in order; the layouts of a struct are those of
its combinations; the diagnostics are those of the checks and the refusals; and
every request, found at first or asked for by a check, is on record or refused. -/
theorem serveLevels_settles (p : Package) (check : Template → List Ty → Checked) (limit : Nat)
    (found : Findings) :
    ∃ (out : Instances) (events : List Event),
      serveLevels p (fun t types => some (check t types)) limit { findings := found } = some out ∧
      (∀ events' out', Drains p (fun t types => some (check t types)) limit
          (atDepth 0 found.requests.toList) (settled { findings := found }) events' out' ↔
        events' = events ∧ out' = out) ∧
      (∀ t, (out.ledger.combinations t).list.Pairwise fun a b => (a == b) = false) ∧
      out.ledger.entries = events.filterMap Event.combination? ∧
      (∀ id, (out.layouts.toList.filter (·.id == id)).map (·.generics) =
        (out.ledger.combinations (.struct id)).list) ∧
      out.findings.diags.toList = found.diags.toList ++ events.flatMap (Event.diags p) ∧
      ∀ r ∈ found.requests.toList ++ events.flatMap Event.requests,
        out.ledger.contains r.template r.types = true ∨ .refuse r ∈ events := by
  obtain ⟨out, hout⟩ := serveLevels_total p check limit { findings := found }
  obtain ⟨events, hrun⟩ := drains_serveLevels (d := 0) (Nat.zero_add limit) hout
  have hbal : Balanced out := hrun.balanced
    ⟨List.Pairwise.nil, fun id => by simp [settled, Ledger.combinations]⟩
  refine ⟨out, events, hout, fun events' out' => ⟨hrun.unique, ?_⟩, hbal.distinct.combinations,
    hrun.entries, hbal.layouts, hrun.diags, fun r hr => hrun.settles ?_⟩
  · rintro ⟨rfl, rfl⟩
    exact hrun
  · simpa [atDepth, Function.comp_def] using hr

end Package.Instances

end JaneCheck
