import DeskScript.Proofs.Enrolment
import DeskScript.Proofs.Visits

/-! A tick of the observers: the order in which their conditions are looked at, and which fires. -/

namespace DeskScript

/-! ### Answers -/

namespace Inquiry

/-- Whether the inquiry can come to this result, with these answers to what it asks. -/
inductive Yields : Inquiry α → List (Element × Sighting) → α → Prop
  | done (a : α) : Yields (.done a) [] a
  | ask {e : Element} {next : Sighting → Inquiry α} {log : List (Element × Sighting)} {a : α}
      (s : Sighting) : Yields (next s) log a → Yields (.ask e next) ((e, s) :: log) a

theorem yields_run (find : Element → Sighting) (q : Inquiry α) :
    q.Yields (q.run find).2 (q.run find).1 := by
  induction q with
  | done a => exact .done a
  | ask e next ih => exact .ask (find e) (ih (find e))

theorem yields_done {a b : α} {log : List (Element × Sighting)} :
    (Inquiry.done a).Yields log b ↔ log = [] ∧ b = a := by
  constructor
  · rintro ⟨⟩
    exact ⟨rfl, rfl⟩
  · rintro ⟨rfl, rfl⟩
    exact .done _

theorem yields_bind {q : Inquiry α} {f : α → Inquiry β} {log : List (Element × Sighting)} {b : β} :
    (q.bind f).Yields log b ↔
      ∃ log₁ a log₂, q.Yields log₁ a ∧ (f a).Yields log₂ b ∧ log = log₁ ++ log₂ := by
  constructor
  · intro h
    induction q generalizing log with
    | done a => exact ⟨[], a, log, .done a, h, rfl⟩
    | ask e next ih =>
      cases h with
      | ask s h =>
        obtain ⟨log₁, a, log₂, h₁, h₂, rfl⟩ := ih s h
        exact ⟨(e, s) :: log₁, a, log₂, .ask s h₁, h₂, rfl⟩
  · rintro ⟨log₁, a, log₂, h₁, h₂, rfl⟩
    induction h₁ with
    | done a => exact h₂
    | ask s _ ih => exact .ask s (ih h₂)

end Inquiry

/-- What comes of the conditions of observers, by their names, and the answers that told it. -/
structure Outcomes where
  truth : String → Except Failure Bool
  answers : String → List (Element × Sighting)

namespace Outcomes

def holds (v : Outcomes) (o : Observer) : Bool :=
  match v.truth o.id with
  | .ok true => true
  | _ => false

def fired (v : Outcomes) (os : List Observer) : Option Observer := os.find? v.holds

/-- The observers up to the first whose condition holds. -/
def looked (v : Outcomes) (os : List Observer) : List Observer :=
  os.takeWhile (!v.holds ·) ++ (v.fired os).toList

def log (v : Outcomes) (os : List Observer) : List (Element × Sighting) :=
  (v.looked os).flatMap fun o => v.answers o.id

/-- Whether each condition that is looked at can come out as it does. -/
def Arise (v : Outcomes) (os : List Observer) : Prop :=
  ∀ o ∈ v.looked os, o.condition.inquiry.Yields (v.answers o.id) (v.truth o.id)

variable {v u : Outcomes} {o : Observer} {os : List Observer}

theorem fired_of_holds (h : v.holds o = true) : v.fired (o :: os) = some o := by
  simp [fired, h]

theorem fired_of_not_holds (h : v.holds o = false) : v.fired (o :: os) = v.fired os := by
  simp [fired, h]

theorem looked_of_holds (h : v.holds o = true) : v.looked (o :: os) = [o] := by
  simp [looked, fired_of_holds h, h]

theorem looked_of_not_holds (h : v.holds o = false) : v.looked (o :: os) = o :: v.looked os := by
  simp [looked, fired_of_not_holds h, h]

theorem log_of_holds (h : v.holds o = true) : v.log (o :: os) = v.answers o.id := by
  rw [log, looked_of_holds h, List.flatMap_singleton]

theorem log_of_not_holds (h : v.holds o = false) :
    v.log (o :: os) = v.answers o.id ++ v.log os := by
  rw [log, looked_of_not_holds h, List.flatMap_cons, log]

theorem arise_of_holds (h : v.holds o = true) :
    v.Arise (o :: os) ↔ o.condition.inquiry.Yields (v.answers o.id) (v.truth o.id) := by
  rw [Arise, looked_of_holds h, List.forall_mem_singleton]

theorem arise_of_not_holds (h : v.holds o = false) :
    v.Arise (o :: os) ↔
      o.condition.inquiry.Yields (v.answers o.id) (v.truth o.id) ∧ v.Arise os := by
  rw [Arise, looked_of_not_holds h, List.forall_mem_cons, Arise]

/-- Only what comes of the conditions of the observers counts. -/
theorem congr_of_forall
    (h : ∀ o ∈ os, v.truth o.id = u.truth o.id ∧ v.answers o.id = u.answers o.id) :
    v.fired os = u.fired os ∧ v.log os = u.log os ∧ (v.Arise os ↔ u.Arise os) := by
  induction os with
  | nil => exact ⟨rfl, rfl, by simp [Arise, looked, fired]⟩
  | cons o os ih =>
    obtain ⟨⟨truth, answers⟩, others⟩ := List.forall_mem_cons.mp h
    obtain ⟨fired, log, arise⟩ := ih others
    have same : v.holds o = u.holds o := by
      unfold holds
      rw [truth]
    cases hu : u.holds o with
    | true =>
      have hv : v.holds o = true := by rw [same, hu]
      rw [fired_of_holds hv, fired_of_holds hu, log_of_holds hv, log_of_holds hu, arise_of_holds hv,
        arise_of_holds hu, truth, answers]
      exact ⟨rfl, rfl, Iff.rfl⟩
    | false =>
      have hv : v.holds o = false := by rw [same, hu]
      rw [fired_of_not_holds hv, fired_of_not_holds hu, log_of_not_holds hv, log_of_not_holds hu,
        arise_of_not_holds hv, arise_of_not_holds hu, truth, answers, fired, log, arise]
      exact ⟨rfl, rfl, Iff.rfl⟩

/-- With another outcome for the name `id`. -/
def update (v : Outcomes) (id : String) (truth : Except Failure Bool)
    (answers : List (Element × Sighting)) : Outcomes where
  truth name := if name = id then truth else v.truth name
  answers name := if name = id then answers else v.answers name

end Outcomes

namespace Registry

/-- The first observer whose condition holds is found out by looking at the conditions up to its own,
one after the other. -/
theorem yields_scan {es : List Entry} (names : (es.map Entry.id).Nodup)
    {log : List (Element × Sighting)} {fired : Option Observer} (h : (scan es).Yields log fired) :
    ∃ v : Outcomes, v.Arise (es.map Entry.observer) ∧ log = v.log (es.map Entry.observer) ∧
      fired = v.fired (es.map Entry.observer) := by
  induction es generalizing log with
  | nil =>
    obtain ⟨rfl, rfl⟩ := Inquiry.yields_done.mp h
    refine ⟨⟨fun _ => .ok false, fun _ => []⟩, ?_, rfl, rfl⟩
    intro o ho
    cases ho
  | cons e es ih =>
    obtain ⟨log₁, truth, log₂, h₁, h₂, rfl⟩ := Inquiry.yields_bind.mp h
    rw [List.map_cons, List.nodup_cons] at names
    rw [List.map_cons]
    by_cases holds : truth = .ok true
    · subst holds
      obtain ⟨rfl, rfl⟩ := Inquiry.yields_done.mp h₂
      let v : Outcomes := ⟨fun _ => .ok true, fun _ => log₁⟩
      have hv : v.holds e.observer = true := rfl
      refine ⟨v, (Outcomes.arise_of_holds hv).mpr h₁, ?_, (Outcomes.fired_of_holds hv).symm⟩
      rw [Outcomes.log_of_holds hv, List.append_nil]
    · have h₂ : (scan es).Yields log₂ fired := by
        match truth, holds, h₂ with
        | .ok false, _, h₂ | .error _, _, h₂ => exact h₂
      obtain ⟨u, arise, rfl, rfl⟩ := ih names.2 h₂
      let v := u.update e.id truth log₁
      have ht : v.truth e.observer.id = truth := if_pos rfl
      have ha : v.answers e.observer.id = log₁ := if_pos rfl
      have hv : v.holds e.observer = false := by
        unfold Outcomes.holds
        rw [ht]
        match truth, holds with
        | .ok false, _ | .error _, _ => rfl
      -- No other observer has this name.
      have others : ∀ o ∈ es.map Entry.observer,
          v.truth o.id = u.truth o.id ∧ v.answers o.id = u.answers o.id := by
        intro o ho
        obtain ⟨e', he', rfl⟩ := List.mem_map.mp ho
        have other : e'.observer.id ≠ e.id := fun same => names.1 (List.mem_map.mpr ⟨e', he', same⟩)
        exact ⟨if_neg other, if_neg other⟩
      obtain ⟨fired, log, arises⟩ := Outcomes.congr_of_forall others
      refine ⟨v, ?_, ?_, ?_⟩
      · rw [Outcomes.arise_of_not_holds hv, ht, ha, arises]
        exact ⟨h₁, arise⟩
      · rw [Outcomes.log_of_not_holds hv, ha, log]
      · rw [Outcomes.fired_of_not_holds hv, fired]

/-! ### The order -/

theorem comesFirst_iff {a b : Entry} :
    comesFirst a b = true ↔ b.priority.toInt < a.priority.toInt ∨
      a.priority.toInt = b.priority.toInt ∧ a.sequence ≤ b.sequence := by
  simp [comesFirst, Int32.lt_iff_toInt_lt, Int32.toInt_inj]

theorem pairwise_candidates (r : Registry) :
    r.candidates.Pairwise fun a b => comesFirst a b = true := by
  apply List.pairwise_mergeSort
  · intro a b c
    simp only [comesFirst_iff]
    omega
  · intro a b
    simp only [Bool.or_eq_true, comesFirst_iff]
    omega

theorem perm_candidates (r : Registry) : r.candidates.Perm (r.entries.filter Entry.active) :=
  List.mergeSort_perm _ _

theorem mem_candidates {r : Registry} {e : Entry} :
    e ∈ r.candidates ↔ e ∈ r.entries ∧ e.active = true := by
  rw [r.perm_candidates.mem_iff, List.mem_filter]

theorem names_candidates {r : Registry} (names : (r.entries.map Entry.id).Nodup) :
    (r.candidates.map Entry.id).Nodup := by
  rw [(r.perm_candidates.map Entry.id).nodup_iff]
  exact names.sublist (List.filter_sublist.map Entry.id)

variable {past : List Change} {r : Registry}

/-- No two observers have one sequence number. -/
theorem Records.eq_of_sequence (h : Records past r) {e f : Entry} (he : e ∈ r.entries)
    (hf : f ∈ r.entries) (hq : e.sequence = f.sequence) : e = f := by
  by_cases same : e.id = f.id
  · exact List.inj_on_of_nodup_map h.names he hf same
  · obtain ⟨st, hs, -⟩ := h.fits e he
    obtain ⟨su, hu, -⟩ := h.fits f hf
    obtain ⟨less, apart⟩ := h.order e he f hf same st su hs hu
    obtain ⟨more, -⟩ := h.order f hf e he (Ne.symm same) su st hu hs
    omega

/-- The order of the candidates does not depend on the order in which the registry holds them. -/
theorem Records.candidates_eq (h : Records past r) {r' : Registry} (held : r'.entries.Perm r.entries) :
    r'.candidates = r.candidates := by
  have perm : r'.candidates.Perm r.candidates := by
    calc
      r'.candidates.Perm (r'.entries.filter Entry.active) := r'.perm_candidates
      List.Perm _ (r.entries.filter Entry.active) := held.filter _
      List.Perm _ r.candidates := r.perm_candidates.symm
  refine List.Perm.eq_of_pairwise ?_ r'.pairwise_candidates r.pairwise_candidates perm
  intro e f he hf hef hfe
  have he := (mem_candidates.mp (perm.mem_iff.mp he)).1
  have hf := (mem_candidates.mp hf).1
  apply h.eq_of_sequence he hf
  rw [comesFirst_iff] at hef hfe
  omega

/-- Whether the observer comes before the other: the higher priority comes first, and of two with one
priority the one whose name came in first. -/
def Standing.Precedes (st su : Standing) : Prop :=
  su.priority < st.priority ∨ st.priority = su.priority ∧ st.since < su.since

/-- The candidates in the order in which they are looked at are the observers that the past calls
active, each before those that it precedes. -/
theorem Records.exists_order (h : Records past r) :
    ∃ order : List Standing, order.map Standing.observer = r.candidates.map Entry.observer ∧
      (∀ st, st ∈ order ↔ standing st.observer.id past = some st ∧ st.active = true) ∧
      order.Pairwise Standing.Precedes := by
  refine ⟨r.candidates.filterMap fun e => standing e.id past, ?_, ?_, ?_⟩
  · rw [List.map_filterMap, ← List.filterMap_eq_map]
    apply List.filterMap_congr
    intro e he
    obtain ⟨st, hs, fits⟩ := h.fits e (mem_candidates.mp he).1
    rw [hs, Option.map_some, fits.observer]
    rfl
  · intro st
    rw [List.mem_filterMap]
    constructor
    · rintro ⟨e, he, hs⟩
      obtain ⟨he, active⟩ := mem_candidates.mp he
      obtain ⟨st', hs', fits⟩ := h.fits e he
      obtain rfl : st' = st := Option.some.inj (hs'.symm.trans hs)
      rw [fits.observer, fits.active]
      exact ⟨hs, active⟩
    · rintro ⟨hs, active⟩
      obtain ⟨e, he, hid⟩ := h.held _ _ hs
      obtain ⟨st', hs', fits⟩ := h.fits e he
      obtain rfl : st' = st := Option.some.inj (hs'.symm.trans (hid ▸ hs))
      exact ⟨e, mem_candidates.mpr ⟨he, fits.active ▸ active⟩, hs'⟩
  · rw [List.pairwise_filterMap]
    have names : r.candidates.Pairwise fun e f => e.id ≠ f.id :=
      List.pairwise_map.mp (names_candidates h.names)
    refine (r.pairwise_candidates.and names).imp_of_mem ?_
    rintro e f he hf ⟨first, apart⟩ st hs su hu
    have he := (mem_candidates.mp he).1
    have hf := (mem_candidates.mp hf).1
    obtain ⟨st', hs', fits⟩ := h.fits e he
    obtain ⟨su', hu', fits'⟩ := h.fits f hf
    obtain rfl : st' = st := Option.some.inj (hs'.symm.trans hs)
    obtain rfl : su' = su := Option.some.inj (hu'.symm.trans hu)
    rw [Standing.Precedes, fits.priority, fits'.priority]
    rcases comesFirst_iff.mp first with higher | ⟨equal, elder⟩
    · exact .inl (Int32.lt_iff_toInt_lt.mpr higher)
    · refine .inr ⟨Int32.toInt_inj.mp equal, ?_⟩
      have strict : e.sequence ≠ f.sequence := fun hq =>
        apart (congrArg Entry.id (h.eq_of_sequence he hf hq))
      exact (h.order e he f hf apart _ _ hs hu).1.mp (by omega)

end Registry

/-! ### Ticks -/

def Job.isProbe : Job → Bool
  | .probe _ => true
  | _ => false

def Mark.ofLook (look : Element × Sighting) : Mark := .looked look.1 look.2

/-- The pieces of work that find out which observer fires show the answers to what is asked, and in
the end leave the observer to be taken in. -/
theorem Work.Goes.of_probes {setup : Setup} {q : Inquiry (Option Observer)} {ps : List Piece}
    {work : Work} (h : Work.Goes setup [.probe q] ps work) (probes : ∀ p ∈ ps, p.job.isProbe = true) :
    ∃ log, ps.filterMap Piece.mark? = log.map Mark.ofLook ∧
      ((∃ q', work = [.probe q'] ∧
          ∀ log' fired, q'.Yields log' fired → q.Yields (log ++ log') fired) ∨
        ∃ fired, work = fired.toList.map .takeIn ∧ q.Yields log fired) := by
  induction h with
  | refl => exact ⟨[], rfl, .inl ⟨q, rfl, fun _ _ hy => hy⟩⟩
  | @snoc ps p rest _ _ ih =>
    have isProbe : p.job.isProbe = true := probes p (by simp)
    obtain ⟨log, marks, hw⟩ := ih fun p hp => probes p (List.mem_append_left _ hp)
    rcases hw with ⟨q', hw, hy⟩ | ⟨fired, hw, -⟩
    · obtain ⟨hj, rfl⟩ := List.cons.inj hw
      obtain ⟨w, s, job⟩ := p
      dsimp only at hj
      subst hj
      cases q' with
      | done fired =>
        refine ⟨log, ?_, .inr ⟨fired, ?_, ?_⟩⟩
        · rw [List.filterMap_append, marks]
          simp [Piece.mark?, Job.mark]
        · simp [Piece.next, Job.run]
        · simpa using hy [] fired (.done fired)
      | ask e next =>
        refine ⟨log ++ [(e, w.find e)], ?_, .inl ⟨next (w.find e), ?_, ?_⟩⟩
        · rw [List.filterMap_append, marks]
          simp [Piece.mark?, Job.mark, Mark.ofLook]
        · simp [Piece.next, Job.run]
        · intro log' fired h'
          simpa using hy _ fired (.ask (w.find e) h')
    · cases fired with
      | none => cases hw
      | some o =>
        obtain ⟨hj, -⟩ := List.cons.inj hw
        rw [hj] at isProbe
        cases isProbe

/-- After these looks, which have been noted, the last of them on top. -/
def State.looked (s : State) (log : List (Element × Sighting)) : State :=
  { s with notes := (log.map fun look => (s.clock, .looked look.1 look.2)).reverse ++ s.notes }

theorem State.noteAll_eq (s : State) (log : List (Element × Sighting)) : s.noteAll log = s.looked log := by
  induction log generalizing s with
  | nil => rfl
  | cons look log ih =>
    change (s.note (.looked look.1 look.2)).noteAll log = _
    rw [ih]
    simp [looked, note]

/-- Whether the ticks that begin in the state `s` look at observers in this order, and the first whose
condition holds is taken in, once. -/
structure State.Ticks (setup : Setup) (s : State) (os : List Observer) : Prop where
  /-- The tick of the polling thread, piece by piece, each in a world and a state of its own. -/
  polled : ∀ w ps next, Work.Goes setup (Job.survey.run setup w s).next ps next →
    (∀ p ∈ ps, p.job.isProbe = true) → (∀ job ∈ next, job.isProbe = false) →
    ∃ v : Outcomes, v.Arise os ∧ ps.filterMap Piece.mark? = (v.log os).map Mark.ofLook ∧
      next = (v.fired os).toList.map .takeIn
  /-- The tick that is made at once. It answers with the observer that fires when that has been taken in,
  and does no more than look if there is none. -/
  checked : ∀ w, ∃ v : Outcomes, v.Arise os ∧ (∀ look ∈ v.log os, look.2 = w.find look.1) ∧
    (s.check setup w).1 = v.fired os ∧
    match v.fired os with
    | some o => ∃ hs, (s.looked (v.log os)).TakesIn setup w o (s.check setup w).2 hs
    | none => (s.check setup w).2 = s.looked (v.log os)

theorem Inquiry.eq_find_of_mem_run (find : Element → Sighting) (q : Inquiry α)
    {look : Element × Sighting} (h : look ∈ (q.run find).2) : look.2 = find look.1 := by
  induction q with
  | done a => cases h
  | ask e next ih =>
    rcases List.mem_cons.mp h with rfl | h
    · rfl
    · exact ih (find e) h

/-- After any changes of the registry there is one order in which ticks look at the active observers,
in whatever order the registry holds them: the higher priority comes first, and of two with one
priority the one whose name came in first. -/
theorem Registry.ticks (past : List Registry.Change) :
    ∃ order : List Registry.Standing,
      (∀ st, st ∈ order ↔ Registry.standing st.observer.id past = some st ∧ st.active = true) ∧
      order.Pairwise Registry.Standing.Precedes ∧
      ∀ (setup : Setup) (s : State), s.registry.entries.Perm (Registry.after past).entries →
        s.Ticks setup (order.map Registry.Standing.observer) := by
  have records := Registry.records_after past
  obtain ⟨order, observers, members, sorted⟩ := records.exists_order
  refine ⟨order, members, sorted, ?_⟩
  intro setup s held
  have same : s.registry.candidates = (Registry.after past).candidates := records.candidates_eq held
  have names : (s.registry.candidates.map Entry.id).Nodup := by
    rw [same]
    exact Registry.names_candidates records.names
  rw [observers, ← same]
  constructor
  · intro w ps next goes probes finished
    obtain ⟨log, marks, ⟨q, rfl, -⟩ | ⟨fired, rfl, yields⟩⟩ := goes.of_probes probes
    · cases finished (.probe q) (List.mem_singleton.mpr rfl)
    · obtain ⟨v, arise, rfl, rfl⟩ := Registry.yields_scan names yields
      exact ⟨v, arise, marks, rfl⟩
  · intro w
    have yields := Inquiry.yields_run w.find (Registry.scan s.registry.candidates)
    obtain ⟨v, arise, log, fired⟩ := Registry.yields_scan names yields
    refine ⟨v, arise, ?_, ?_⟩
    · rw [← log]
      exact fun look => Inquiry.eq_find_of_mem_run w.find _
    · rw [← log, ← fired, ← State.noteAll_eq]
      unfold State.check
      cases hr : (Registry.scan s.registry.candidates).run w.find with
      | mk fired log =>
        cases fired with
        | none => exact ⟨rfl, rfl⟩
        | some o => exact ⟨rfl, (s.noteAll log).takesIn_awaitVisitors setup w o⟩

/-- Two observers with one priority, the first of them registered again, and one that is not active,
held in the opposite order. -/
theorem Registry.ticks_reversed :
    let first : Observer := ⟨"first", .all [], []⟩
    let second : Observer := ⟨"second", .any [], []⟩
    let off : Observer := ⟨"off", .all [], []⟩
    let past : List Registry.Change := [.setActive "off" false, .register first 5, .register second 5,
      .register off 9, .register first 3]
    let entries : List Entry := [⟨second, true, 5, 3⟩, ⟨off, false, 9, 2⟩, ⟨first, true, 5, 1⟩]
    ∃ order : List Registry.Standing,
      (∀ st, st ∈ order ↔ Registry.standing st.observer.id past = some st ∧ st.active = true) ∧
      order.Pairwise Registry.Standing.Precedes ∧
      State.Ticks ⟨{}, 100, true⟩ { registry := ⟨entries, 3⟩ }
        (order.map Registry.Standing.observer) := by
  intro first second off past entries
  obtain ⟨order, members, sorted, ticks⟩ := Registry.ticks past
  refine ⟨order, members, sorted, ticks _ { registry := ⟨entries, 3⟩ } ?_⟩
  have held : entries = (Registry.after past).entries.reverse := by
    simp [entries, past, Registry.after, Registry.Change.apply, Registry.register, Registry.setActive,
      Registry.find?, first, second, off]
  rw [held]
  exact List.reverse_perm _

end DeskScript
