import DeskScript.Proofs.Renewal
import DeskScript.Proofs.Resuming

/-! The observers that the loop of a run registers: in a whole iteration those of the plain reading of
the script, and no others in any part of it. What is on the screen decides which they are, and how
actions go does not matter. -/

namespace DeskScript

def Mark.enlisting? : Mark → Option Enlisting
  | .enlisted o priority => some ⟨o, priority⟩
  | _ => none

def Piece.enlistings (ps : List Piece) : List Enlisting := (marks ps).filterMap Mark.enlisting?

theorem Piece.enlistings_append (ps qs : List Piece) :
    enlistings (ps ++ qs) = enlistings ps ++ enlistings qs := by
  simp [enlistings, marks]

theorem Piece.enlistings_singleton (p : Piece) :
    enlistings [p] = p.mark?.toList.filterMap Mark.enlisting? := by
  cases hm : p.mark? <;> simp [enlistings, marks, hm]

/-! ### What readings register -/

namespace Reading

def enlistings (a : Reading) : List Enlisting := a.marks.filterMap Mark.enlisting?

/-- Two readings register the same observers, and the run is stopped by both or neither. -/
structure Alike (a b : Reading) : Prop where
  enlistings : a.enlistings = b.enlistings
  stops : a.stops = b.stops

theorem enlistings_andThen (a b : Reading) :
    (a.andThen b).enlistings = a.enlistings ++ if a.stops then [] else b.enlistings :=
  filterMap_andThen Mark.enlisting? a b

theorem mem_enlistings_andThen {a b : Reading} {x : Enlisting} (h : x ∈ (a.andThen b).enlistings) :
    x ∈ a.enlistings ∨ x ∈ b.enlistings := by
  rw [enlistings_andThen] at h
  refine (List.mem_append.mp h).imp_right fun h => ?_
  split at h
  · cases h
  · exact h

theorem stops_andThen (a b : Reading) : (a.andThen b).stops = (a.stops || b.stops) := by
  unfold andThen
  split
  · rename_i h
    simp [h]
  · rename_i h
    simp [h]

namespace Alike

variable {a a' b b' c : Reading}

theorem refl (a : Reading) : a.Alike a := ⟨rfl, rfl⟩

theorem trans (h : a.Alike b) (h' : b.Alike c) : a.Alike c :=
  ⟨h.enlistings.trans h'.enlistings, h.stops.trans h'.stops⟩

theorem symm (h : a.Alike b) : b.Alike a := ⟨h.enlistings.symm, h.stops.symm⟩

theorem andThen (h : a.Alike a') (h' : b.Alike b') : (a.andThen b).Alike (a'.andThen b') := by
  constructor
  · rw [enlistings_andThen, enlistings_andThen, h.enlistings, h'.enlistings, h.stops]
  · rw [stops_andThen, stops_andThen, h.stops, h'.stops]

end Alike

end Reading

theorem Action.enlistings_reading (w : World) (step : Step) (a : Action) (q : Inquiry Aim) :
    (a.reading w step q).enlistings = [] := by
  unfold Action.reading Reading.enlistings
  dsimp only
  split <;> simp [Mark.enlisting?, Function.comp_def]

theorem Condition.enlistings_reading (w : World) (q : Inquiry (Except Failure Bool)) :
    (Condition.reading w q).enlistings = [] := by
  simp [Condition.reading, Reading.enlistings, Mark.enlisting?, Function.comp_def]

mutual

theorem Step.priority_of_mem {w : World} {lane : Lane} {x : Enlisting} (step : Step)
    (h : x ∈ (step.bodyReading w lane).enlistings) : x.priority = lane.run.priority x.id := by
  cases step with
  | action header a =>
    rw [Step.bodyReading, Action.enlistings_reading] at h
    cases h
  | conditional header c thens elses =>
    rw [Step.bodyReading] at h
    rcases Reading.mem_enlistings_andThen h with h | h
    · rw [Condition.enlistings_reading] at h
      cases h
    · split at h
      · exact Forest.priority_of_mem thens h
      · exact Forest.priority_of_mem elses h
      · cases h
  | observer header c steps =>
    obtain rfl : x = ⟨⟨header.id, c, steps⟩, lane.run.priority header.id⟩ := List.mem_singleton.mp h
    rfl
  | group header name steps =>
    rw [Step.bodyReading] at h
    exact Forest.priority_of_mem steps h

/-- A reading registers every name with its priority in the run. -/
theorem Forest.priority_of_mem {w : World} {lane : Lane} {x : Enlisting} (steps : List Step)
    (h : x ∈ (Forest.reading w lane steps).enlistings) : x.priority = lane.run.priority x.id := by
  cases steps with
  | nil =>
    rw [Forest.reading] at h
    cases h
  | cons step steps =>
    rw [Forest.reading] at h
    rcases Reading.mem_enlistings_andThen h with h | h
    · exact (Reading.mem_enlistings_andThen h).elim (fun h => nomatch h)
        (Step.priority_of_mem step)
    · exact Forest.priority_of_mem steps h

end

/-! ### One screen and two worlds -/

section Screen

variable {w w' : World} {lane : Lane}

theorem Action.alike_reading (w w' : World) (step : Step) (a : Action) (q : Inquiry Aim) :
    (a.reading w' step q).Alike (a.reading w step q) :=
  ⟨by rw [enlistings_reading, enlistings_reading], rfl⟩

theorem Condition.reading_congr (screen : w'.find = w.find) (q : Inquiry (Except Failure Bool)) :
    Condition.reading w' q = Condition.reading w q := by
  rw [Condition.reading, Condition.reading, screen]

mutual

theorem Step.alike_bodyReading (screen : w'.find = w.find) (lane : Lane) (step : Step) :
    (step.bodyReading w' lane).Alike (step.bodyReading w lane) := by
  cases step with
  | action h a => exact Action.alike_reading w w' _ a _
  | conditional h c thens elses =>
    rw [Step.bodyReading, Step.bodyReading, Condition.reading_congr screen, screen]
    refine Reading.Alike.andThen (.refl _) ?_
    split
    · exact Forest.alike_reading screen lane thens
    · exact Forest.alike_reading screen lane elses
    · exact .refl _
  | observer h c steps => exact .refl _
  | group h name steps =>
    rw [Step.bodyReading, Step.bodyReading]
    exact Forest.alike_reading screen lane steps

/-- Where two worlds have one screen the same observers are registered. -/
theorem Forest.alike_reading (screen : w'.find = w.find) (lane : Lane) (steps : List Step) :
    (Forest.reading w' lane steps).Alike (Forest.reading w lane steps) := by
  cases steps with
  | nil => exact .refl _
  | cons step steps =>
    rw [Forest.reading, Forest.reading]
    have body := Step.alike_bodyReading screen lane step
    exact Reading.Alike.andThen (Reading.Alike.andThen (.refl _) body)
      (Forest.alike_reading screen lane steps)

end

theorem Step.alike_reading (screen : w'.find = w.find) (lane : Lane) (step : Step) :
    (step.reading w' lane).Alike (step.reading w lane) :=
  Reading.Alike.andThen (.refl _) (Step.alike_bodyReading screen lane step)

theorem Job.alike_reading (screen : w'.find = w.find) (job : Job) :
    (job.reading w').Alike (job.reading w) := by
  cases job with
  | level lane steps => exact Forest.alike_reading screen lane steps
  | levelOpen lane step steps =>
    exact Reading.Alike.andThen (Step.alike_reading screen lane step)
      (Forest.alike_reading screen lane steps)
  | enter lane step => exact Step.alike_reading screen lane step
  | body lane step => exact Step.alike_bodyReading screen lane step
  | decide lane q thens elses =>
    rw [reading, reading, Condition.reading_congr screen, screen, branchReading_eq, branchReading_eq]
    exact Reading.Alike.andThen (.refl _) (Forest.alike_reading screen lane _)
  | aim step action since q => exact Action.alike_reading w w' step action q
  | act step action since place => exact Action.alike_reading w w' step action (.done place)
  | _ => exact .refl _

theorem Work.alike_reading (screen : w'.find = w.find) (work : Work) :
    (Work.reading w' work).Alike (Work.reading w work) := by
  induction work with
  | nil => exact .refl _
  | cons job work ih => exact Reading.Alike.andThen (Job.alike_reading screen job) ih

end Screen

/-! ### What is still to be registered -/

/-- What the work shows until the end of its iteration. If it stands before an iteration that is the
whole of it. -/
def Job.coming (w : World) : Job → Reading
  | .iterate r | .iterateOpen r => r.reading w
  | job => job.reading w

def Work.coming (w : World) : Work → Reading
  | [] => .nothing
  | job :: work => (job.coming w).andThen (coming w work)

variable {setup : Setup} {w : World} {r : Run} {p : Piece} {ps : List Piece} {rest work work' : Work}

theorem Job.coming_of_own {lane : Lane} {job : Job} (own : job.IsOf lane) :
    job.coming w = job.reading w := by
  cases job with
  | iterate r | iterateOpen r => exact absurd own id
  | _ => rfl

namespace Work

theorem coming_append (w : World) (a b : Work) :
    coming w (a ++ b) = (coming w a).andThen (coming w b) := by
  induction a with
  | nil => rfl
  | cons job a ih => rw [List.cons_append, coming, coming, ih, Reading.andThen_assoc]

theorem coming_of_own {lane : Lane} (own : ∀ job ∈ work, job.IsOf lane) :
    coming w work = reading w work := by
  induction work with
  | nil => rfl
  | cons job work ih =>
    obtain ⟨head, behind⟩ := List.forall_mem_cons.mp own
    rw [coming, reading, Job.coming_of_own head, ih behind]

theorem coming_begins {pauses : Work} (hp : ∀ job ∈ pauses, job.isPause = true) :
    coming w (pauses ++ .iterate r :: State.closing r) = r.reading w := by
  induction pauses with
  | nil => exact Reading.andThen_nothing _
  | cons job pauses ih =>
    have pause := hp job List.mem_cons_self
    have silent : job.coming w = .nothing := by cases job <;> first | rfl | cases pause
    rw [List.cons_append, coming, silent, ih fun j hj => hp j (List.mem_cons_of_mem _ hj)]
    rfl

end Work

theorem Piece.next_of_isBarred (h : p.isBarred = true) : p.mark? = none ∧ p.next setup = [] := by
  obtain ⟨w, s, job⟩ := p
  cases job with
  | levelOpen lane step steps =>
    have hp : s.phase = .paused := by simpa [isBarred] using h
    simp [mark?, Job.mark, next, Job.run, Job.unlessPaused, hp]
  | _ => cases h

/-- Where one iteration is counted the pieces of work can be cut. -/
theorem Piece.exists_count (one : ps.countP (·.job.isCount) = 1) :
    ∃ before p after, ps = before ++ p :: after ∧ p.job.isCount = true ∧
      (∀ q ∈ before, q.job.isCount = false) ∧ ∀ q ∈ after, q.job.isCount = false := by
  obtain ⟨p, hp, hc⟩ := List.countP_pos_iff.mp (Nat.lt_of_lt_of_eq Nat.zero_lt_one one.symm)
  obtain ⟨before, after, rfl⟩ := List.append_of_mem hp
  have counted : (p :: after).countP (·.job.isCount) = after.countP (·.job.isCount) + 1 :=
    List.countP_cons_of_pos hc
  rw [List.countP_append, counted] at one
  have none₁ : before.countP (·.job.isCount) = 0 := by omega
  have none₂ : after.countP (·.job.isCount) = 0 := by omega
  exact ⟨before, p, after, rfl, hc, by simpa using List.countP_eq_zero.mp none₁,
    by simpa using List.countP_eq_zero.mp none₂⟩

/-- The piece of work was done while the run went on, with the same on the screen as in `w`. -/
structure Piece.IsSteady (w : World) (r : Run) (p : Piece) : Prop where
  run : p.state.run = some r
  live : p.state.isCancelled r.token = false
  screen : p.world.find = w.find

/-- Work in the middle of the steps reads like what it shows and what comes of it, in every world with
the same screen. -/
theorem Lane.Walk.coming_run {w' : World} {s : State} {job : Job} {ws : Work}
    (walk : Lane.Walk ⟨r, true⟩ (job :: ws)) (screen : w'.find = w.find) (hh : job.isHalt = false)
    (live : s.isCancelled r.token = false)
    (going : s.phase = .paused → ∀ l step steps, job ≠ .levelOpen l step steps) :
    (job.coming w).Alike (Reading.andThen ⟨(job.mark w').toList, false⟩
      (Work.coming w (job.run setup w' s).next)) := by
  have own := walk.head
  have walk' : Lane.Walk ⟨r, true⟩ ((job.run setup w' s).next ++ ws) :=
    walk.run hh setup w' (by simp)
  have after : Work.coming w (job.run setup w' s).next = Work.reading w (job.run setup w' s).next :=
    Work.coming_of_own fun j hj => walk'.own j (List.mem_append_left _ hj)
  have reads : job.reading w' = Reading.andThen ⟨(job.mark w').toList, false⟩
      (Work.reading w' (job.run setup w' s).next) := Job.reading_run own rfl hh live going
  rw [Job.coming_of_own own, after]
  refine (Job.alike_reading screen job).symm.trans ?_
  rw [reads]
  exact Reading.Alike.andThen (.refl _) (Work.alike_reading screen _)

namespace Run.Keeps

/-- The loop counts an iteration when nothing more of it is to come. -/
theorem of_isCount (h : r.Keeps (p.job :: rest)) (hc : p.job.isCount = true) :
    p.mark? = none ∧ Work.coming w (p.job :: rest) = .nothing ∧
      Work.coming w (p.next setup ++ rest) = r.reading w := by
  obtain ⟨ws, rfl, serves⟩ := h.cases_cons
  obtain ⟨w', s, job⟩ := p
  cases job with
  | count r' =>
    rcases serves.cases_cons with ⟨pause, -⟩ | ⟨begin, -⟩ | ⟨-, own | own, rfl⟩ | ⟨ws, -, walk⟩ |
      ⟨finish, -⟩
    · cases pause
    · cases begin
    · cases own
    · cases own
      refine ⟨rfl, rfl, ?_⟩
      exact @Work.coming_begins w r [.giveWay 0, .rest _] (by simp [Job.isPause])
    · exact absurd walk.head id
    · cases finish
  | _ => cases hc

/-- Work of the loop reads like what it shows and what is still to come after it, unless it is barred
or counts an iteration. -/
theorem coming_next (h : r.Keeps (p.job :: rest)) (steady : p.IsSteady w r)
    (hh : p.job.isHalt = false) (open' : p.isBarred = false) (hc : p.job.isCount = false) :
    (Work.coming w (p.job :: rest)).Alike
      (Reading.andThen ⟨p.mark?.toList, false⟩ (Work.coming w (p.next setup ++ rest))) := by
  obtain ⟨w', s, job⟩ := p
  obtain ⟨-, live, screen⟩ := steady
  have live : s.isCancelled r.token = false := live
  suffices single : (job.coming w).Alike (Reading.andThen ⟨(job.mark w').toList, false⟩
      (Work.coming w (job.run setup w' s).next)) by
    rw [Work.coming, Piece.next, Work.coming_append, ← Reading.andThen_assoc]
    exact single.andThen (.refl _)
  obtain ⟨ws, rfl, serves⟩ := h.cases_cons
  rcases serves.cases_cons with ⟨pause, -⟩ | ⟨rfl, -⟩ | ⟨-, rfl | rfl, -⟩ | ⟨ws, -, walk⟩ | ⟨rfl, -⟩
  · cases job with
    | rest ms | giveWay ms => exact .refl _
    | _ => cases pause
  · simp only [Lane.begin, if_true, Job.run, Job.guarded, live, Bool.false_eq_true, if_false]
    have same : Work.coming w [.iterateOpen r] = r.reading w := Reading.andThen_nothing _
    rw [same]
    exact .refl _
  · have same : Work.coming w (Job.run setup w' s (.iterateOpen r)).next = r.reading w := by
      simp only [Job.run]
      split
      · exact Reading.andThen_nothing _
      · exact Reading.andThen_nothing _
    rw [same]
    exact .refl _
  · cases hc
  · refine walk.coming_run screen hh live ?_
    rintro hp l step steps rfl
    simp [Piece.isBarred, hp] at open'
  · simp only [Lane.finish, if_true, Job.run, Job.guarded, live, Bool.false_eq_true, if_false]
    exact .refl _

theorem of_steady (h : r.Keeps work) (goes : work.Goes setup ps work')
    (steady : ∀ p ∈ ps, p.IsSteady w r) : r.Keeps work' :=
  h.of_goes goes fun p hp => ⟨(steady p hp).run, (steady p hp).live⟩

/-! ### Whole iterations -/

/-- As long as no iteration is counted and no step is barred, what was to come has been shown or is
still to come. -/
theorem coming_of_goes (h : r.Keeps work) (goes : work.Goes setup ps work')
    (steady : ∀ p ∈ ps, p.IsSteady w r) (uncut : ∀ p ∈ ps, p.isBarred = false)
    (uncounted : ∀ p ∈ ps, p.job.isCount = false) :
    (Work.coming w work).Alike (Reading.andThen ⟨Piece.marks ps, false⟩ (Work.coming w work')) := by
  induction goes with
  | refl => exact .refl _
  | @snoc ps p rest goes hh ih =>
    obtain ⟨steady', own⟩ := List.forall_mem_append.mp steady
    obtain ⟨uncut', open'⟩ := List.forall_mem_append.mp uncut
    obtain ⟨uncounted', hc⟩ := List.forall_mem_append.mp uncounted
    have keeps : r.Keeps (p.job :: rest) := h.of_steady goes steady'
    have next : (Work.coming w (p.job :: rest)).Alike
        (Reading.andThen ⟨p.mark?.toList, false⟩ (Work.coming w (p.next setup ++ rest))) :=
      keeps.coming_next (own p (by simp)) hh (open' p (by simp)) (hc p (by simp))
    have all : Reading.andThen ⟨Piece.marks (ps ++ [p]), false⟩ (Work.coming w (p.next setup ++ rest)) =
        Reading.andThen ⟨Piece.marks ps, false⟩
          (Reading.andThen ⟨p.mark?.toList, false⟩ (Work.coming w (p.next setup ++ rest))) := by
      rw [Piece.marks_snoc]
      simp [Reading.marks_andThen]
    refine (ih steady' uncut' uncounted').trans ?_
    rw [all]
    exact Reading.Alike.andThen (.refl _) next

/-- In a whole iteration that no pause cuts short the loop registers the observers of the plain
reading, which does not stop the run. -/
theorem enlistings_of_whole (h : r.Keeps work) (goes : work.Goes setup ps work')
    (steady : ∀ p ∈ ps, p.IsSteady w r) (uncut : ∀ p ∈ ps, p.isBarred = false)
    (begins : Work.coming w work = r.reading w) (ends : Work.coming w work' = r.reading w)
    (one : ps.countP (·.job.isCount) = 1) :
    (r.reading w).stops = false ∧ Piece.enlistings ps = (r.reading w).enlistings := by
  obtain ⟨before, p, after, rfl, hc, before_none, after_none⟩ := Piece.exists_count one
  obtain ⟨steady₁, steady₂⟩ := List.forall_mem_append.mp steady
  obtain ⟨own, steady₃⟩ := List.forall_mem_cons.mp steady₂
  obtain ⟨uncut₁, uncut₂⟩ := List.forall_mem_append.mp uncut
  obtain ⟨mid, first, second⟩ := goes.cut rfl
  obtain ⟨rest, rfl, third⟩ := second.of_cons
  have keeps : r.Keeps (p.job :: rest) := h.of_steady first steady₁
  have hh : p.job.isHalt = false := by
    cases hj : p.job with
    | count => rfl
    | _ => simp [hj, Job.isCount] at hc
  have keeps' : r.Keeps (p.next setup ++ rest) := keeps.next own.run own.live hh
  obtain ⟨silent, finished, again⟩ : p.mark? = none ∧ Work.coming w (p.job :: rest) = .nothing ∧
      Work.coming w (p.next setup ++ rest) = r.reading w := keeps.of_isCount hc
  have shown := h.coming_of_goes first steady₁ uncut₁ before_none
  have idle := keeps'.coming_of_goes third steady₃ (List.forall_mem_cons.mp uncut₂).2 after_none
  rw [begins, finished, Reading.andThen_nothing] at shown
  rw [again, ends] at idle
  -- What is to come once the iteration is counted is all still to come in the end.
  have none : Piece.enlistings after = [] := by
    have same := idle.enlistings
    rw [Reading.enlistings_andThen] at same
    exact List.append_left_eq_self.mp same.symm
  have alone : Piece.enlistings [p] = [] := by
    rw [Piece.enlistings_singleton, silent]
    rfl
  refine ⟨shown.stops, ?_⟩
  calc Piece.enlistings (before ++ p :: after)
      = Piece.enlistings before ++ (Piece.enlistings [p] ++ Piece.enlistings after) := by
        rw [← Piece.enlistings_append, ← Piece.enlistings_append]
        rfl
    _ = Piece.enlistings before := by rw [alone, none, List.append_nil, List.append_nil]
    _ = (r.reading w).enlistings := shown.enlistings.symm

/-! ### Parts of iterations -/

/-- All that is still to come is in the plain reading, and does not stop the run. -/
structure Within (w : World) (r : Run) (work : Work) : Prop where
  goes_on : (Work.coming w work).stops = false
  known : ∀ x ∈ (Work.coming w work).enlistings, x ∈ (r.reading w).enlistings

theorem within_of_begins (unstopped : (r.reading w).stops = false)
    (begins : Work.coming w work = r.reading w) : Within w r work := by
  constructor
  · rw [begins]
    exact unstopped
  · rw [begins]
    exact fun x hx => hx

namespace Within

theorem of_alike {marks : List Mark} (h : Within w r work)
    (same : (Work.coming w work).Alike (Reading.andThen ⟨marks, false⟩ (Work.coming w work'))) :
    (∀ x ∈ marks.filterMap Mark.enlisting?, x ∈ (r.reading w).enlistings) ∧ Within w r work' := by
  have known := h.known
  have goes_on := same.stops.symm.trans h.goes_on
  rw [same.enlistings, Reading.enlistings_andThen] at known
  obtain ⟨shown, later⟩ := List.forall_mem_append.mp known
  exact ⟨shown, goes_on, later⟩

theorem behind {job : Job} (h : Within w r (job :: rest)) : Within w r rest := by
  have goes_on := h.goes_on
  have known := h.known
  rw [Work.coming, Reading.stops_andThen, Bool.or_eq_false_iff] at goes_on
  rw [Work.coming, Reading.enlistings_andThen, goes_on.1] at known
  exact ⟨goes_on.2, (List.forall_mem_append.mp known).2⟩

end Within

/-- Work of the loop registers no observers but those of the plain reading, and what it leaves does not
either. -/
theorem within_next (h : r.Keeps (p.job :: rest)) (steady : p.IsSteady w r)
    (hh : p.job.isHalt = false) (unstopped : (r.reading w).stops = false)
    (within : Within w r (p.job :: rest)) :
    (∀ x ∈ Piece.enlistings [p], x ∈ (r.reading w).enlistings) ∧
      Within w r (p.next setup ++ rest) := by
  rw [Piece.enlistings_singleton]
  cases hc : p.job.isCount with
  | true =>
    obtain ⟨silent, -, again⟩ : p.mark? = none ∧ Work.coming w (p.job :: rest) = .nothing ∧
        Work.coming w (p.next setup ++ rest) = r.reading w := h.of_isCount hc
    rw [silent]
    exact ⟨by simp, within_of_begins unstopped again⟩
  | false =>
    cases hb : p.isBarred with
    | true =>
      obtain ⟨silent, none⟩ : p.mark? = none ∧ p.next setup = [] := Piece.next_of_isBarred hb
      rw [silent, none]
      exact ⟨by simp, within.behind⟩
    | false => exact within.of_alike (h.coming_next steady hh hb hc)

/-- Whatever pauses bar, where the plain reading does not stop the run the loop registers no observers
but those of the plain reading. -/
theorem within_of_goes (h : r.Keeps work) (goes : work.Goes setup ps work')
    (steady : ∀ p ∈ ps, p.IsSteady w r) (unstopped : (r.reading w).stops = false)
    (within : Within w r work) :
    (∀ x ∈ Piece.enlistings ps, x ∈ (r.reading w).enlistings) ∧ Within w r work' := by
  induction goes with
  | refl => exact ⟨by simp [Piece.enlistings, Piece.marks], within⟩
  | @snoc ps p rest goes hh ih =>
    obtain ⟨steady', own⟩ := List.forall_mem_append.mp steady
    obtain ⟨known, within'⟩ := ih steady'
    have keeps : r.Keeps (p.job :: rest) := h.of_steady goes steady'
    obtain ⟨shown, later⟩ := keeps.within_next (own p (by simp)) hh unstopped within'
    rw [Piece.enlistings_append]
    exact ⟨List.forall_mem_append.mpr ⟨known, shown⟩, later⟩

end Run.Keeps

end DeskScript
