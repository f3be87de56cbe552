import DeskScript.Proofs.Finishing
import DeskScript.Proofs.Steadying

/-! What iterations leave behind: on record one ending for each action that was entered, and in the
registry each observer that was reached. -/

namespace DeskScript

/-! ### Endings -/

/-- How the action of a step ended: the name of the step, and the error if there was one. -/
structure Ending where
  step : String
  error : Option String
deriving DecidableEq

def Step.ending (step : Step) (a : Action) (ok : Bool) : Ending :=
  ⟨step.displayName, if ok then none else some s!"{a.name} failed"⟩

/-- The ending that the event puts on record. -/
def Event.ending? : Event → Option Ending
  | .stepSucceeded step _ => some ⟨step, none⟩
  | .stepFailed step _ error => some ⟨step, some error⟩
  | _ => none

def Note.ending? : Note → Option Ending
  | .event e => e.ending?
  | _ => none

def Mark.ending? : Mark → Option Ending
  | .reported step a ok => some (step.ending a ok)
  | _ => none

def Happening.ending? (e : Happening) : Option Ending := e.mark?.bind Mark.ending?

/-- The endings on record, the first of them first. -/
def State.endings (s : State) : List Ending := s.events.filterMap Event.ending?

/-- Whether the action succeeds when its targets are where they are found in the world. -/
def Action.succeeds (w : World) (a : Action) : Bool := (w.perform (a.deed (a.aim.run w.find).1)).isOk

/-- The ending that comes of a step. Only that of an action has one. -/
def Step.ending? (w : World) : Step → Option Ending
  | .action h a => some ((Step.action h a).ending a (a.succeeds w))
  | .conditional _ _ _ _ | .observer _ _ _ | .group _ _ _ => none

/-- The observer that is registered for a step, with its priority in the run. -/
def Step.enlisting? (r : Run) : Step → Option Enlisting
  | .observer h c steps => some ⟨⟨h.id, c, steps⟩, r.priority h.id⟩
  | .action _ _ | .conditional _ _ _ _ | .group _ _ _ => none

/-! ### What comes of the steps of a reading -/

section Dues

variable {β : Type} {w : World} {lane : Lane} {f : Mark → Option β} {g : Step → Option β}

/-- What `f` finds in marks comes of steps as `g` says: of an action when it is reported, of an observer
when it is registered, and of no other step. -/
structure Mark.Dues (w : World) (r : Run) (f : Mark → Option β) (g : Step → Option β) : Prop where
  entered : ∀ foreground step, f (.entered foreground step) = none
  looked : ∀ e sighting, f (.looked e sighting) = none
  did : ∀ deed ok, f (.did deed ok) = none
  reported : ∀ h a, f (.reported (.action h a) a (a.succeeds w)) = g (.action h a)
  enlisted : ∀ h c steps, f (.enlisted ⟨h.id, c, steps⟩ (r.priority h.id)) = g (.observer h c steps)
  conditional : ∀ h c thens elses, g (.conditional h c thens elses) = none
  group : ∀ h name steps, g (.group h name steps) = none

theorem Mark.dues_ending (w : World) (r : Run) : Dues w r Mark.ending? (Step.ending? w) := by
  constructor <;> intros <;> rfl

theorem Mark.dues_enlisting (w : World) (r : Run) : Dues w r Mark.enlisting? (Step.enlisting? r) := by
  constructor <;> intros <;> rfl

/-- If `f` finds in the first reading what is still `due` and then what comes of its steps, and in the
other one what comes of its steps, then it does so in both together. -/
theorem Reading.dues_andThen {a b : Reading} {due : List β}
    (first : a.marks.filterMap f = due ++ a.entered.filterMap g)
    (second : b.marks.filterMap f = b.entered.filterMap g) :
    (a.andThen b).marks.filterMap f = due ++ (a.andThen b).entered.filterMap g := by
  have same : (a.andThen b).entered = a.entered ++ if a.stops then [] else b.entered :=
    filterMap_andThen Mark.entered? a b
  rw [filterMap_andThen, same, first, second, List.filterMap_append, List.append_assoc]
  split <;> rfl

theorem Mark.Dues.of_action (dues : Dues w lane.run f g) (h : Header) (a : Action) :
    (a.reading w (.action h a) a.aim).marks.filterMap f = (g (.action h a)).toList := by
  have report : f (.reported (.action h a) a (w.perform (a.deed (a.aim.run w.find).1)).isOk) =
      g (.action h a) := dues.reported h a
  have looks : (f ∘ fun look : Element × Sighting => Mark.looked look.1 look.2) = fun _ => none :=
    funext fun look => dues.looked look.1 look.2
  unfold Action.reading
  simp only [List.filterMap_append, List.filterMap_map, looks, List.filterMap_none, List.nil_append]
  rw [List.filterMap_cons, report]
  split <;> cases g (.action h a) <;> simp [dues.did]

theorem Mark.Dues.of_condition (dues : Dues w lane.run f g)
    (q : Inquiry (Except Failure Bool)) : (Condition.reading w q).marks.filterMap f = [] := by
  simp [Condition.reading, dues.looked]

mutual

theorem Step.dues_bodyReading (dues : Mark.Dues w lane.run f g) (step : Step) :
    (step.bodyReading w lane).marks.filterMap f =
      (g step).toList ++ (step.bodyReading w lane).entered.filterMap g := by
  cases step with
  | action h a =>
    rw [Step.bodyReading, dues.of_action, Action.entered_reading]
    exact (List.append_nil _).symm
  | conditional h c thens elses =>
    rw [Step.bodyReading, dues.conditional]
    refine Reading.dues_andThen ?_ ?_
    · rw [dues.of_condition, Condition.entered_reading]
      rfl
    · split
      · exact Forest.dues_reading dues thens
      · exact Forest.dues_reading dues elses
      · rfl
  | observer h c steps =>
    have single := dues.enlisted h c steps
    rw [Step.bodyReading, ← single]
    cases hf : f (.enlisted ⟨h.id, c, steps⟩ (lane.run.priority h.id)) <;>
      simp [Lane.enlisting, Reading.entered, Mark.entered?, hf]
  | group h name steps =>
    rw [Step.bodyReading, dues.group]
    exact Forest.dues_reading dues steps

/-- A reading shows what comes of each step that it enters, once and in the order of the steps. -/
theorem Forest.dues_reading (dues : Mark.Dues w lane.run f g) (steps : List Step) :
    (Forest.reading w lane steps).marks.filterMap f =
      (Forest.reading w lane steps).entered.filterMap g := by
  cases steps with
  | nil =>
    rw [Forest.reading]
    rfl
  | cons step steps =>
    have head : (step.reading w lane).marks.filterMap f = (step.reading w lane).entered.filterMap g := by
      have body := Step.dues_bodyReading dues step
      unfold Step.reading
      rw [Reading.marks_andThen, Reading.entered, List.filterMap_append, List.filterMap_append, body]
      cases hg : g step <;> simp [dues.entered, Mark.entered?, hg, Reading.entered]
    rw [Forest.reading_cons]
    exact @Reading.dues_andThen _ _ _ _ _ [] head (Forest.dues_reading dues steps)

end

end Dues

/-- The endings that an iteration of the run puts on record, one for each action that it enters. -/
def Run.endings (w : World) (r : Run) : List Ending := (r.reading w).entered.filterMap (Step.ending? w)

/-- The observers that an iteration of the run registers, one for each observer that it reaches. -/
def Run.reached (w : World) (r : Run) : List Enlisting :=
  (r.reading w).entered.filterMap (Step.enlisting? r)

/-! ### What is on record -/

variable {setup : Setup} {w : World} {s : State} {t : Thread} {r : Run} {m m' : Moment}
  {hs : List Happening} {e : Happening} {job : Job} {rest work : Work}

theorem Event.ending?_of_isOfRun {e : Event} (h : e.isOfRun = true) : e.ending? = none := by
  cases e <;> first | rfl | cases h

theorem Job.ending?_outcomeEvent (step : Step) (a : Action) (ms : Nat) (ok : Bool) :
    (outcomeEvent step a ms ok).ending? = some (step.ending a ok) := by
  cases ok
  · rw [outcomeEvent_false]
    rfl
  · rw [outcomeEvent_true]
    rfl

/-- However long it took, what is told of a mark has the ending that the mark shows. -/
theorem Mark.ending?_note? (ms : Nat) (mark : Mark) :
    (mark.note? ms).bind Note.ending? = mark.ending? := by
  cases mark with
  | reported step a ok => exact Job.ending?_outcomeEvent step a ms ok
  | did deed ok => cases deed <;> rfl
  | _ => rfl

/-- Work tells of the ending that it shows. -/
theorem Job.ending?_note? (untold : ∀ e, job = .tell e → e.ending? = none) (w : World) (s : State) :
    (job.note? w s).bind Note.ending? = (job.mark w).bind Mark.ending? := by
  cases hm : job.mark w with
  | some mark =>
    obtain ⟨ms, told⟩ := note?_of_mark hm s
    rw [told]
    exact Mark.ending?_note? ms mark
  | none =>
    rcases note?_of_no_mark hm s with none | ⟨e, rfl, told⟩
    · rw [none]
      rfl
    · rw [told]
      exact untold e rfl

/-- What is only told, and not done, is no ending. -/
theorem Moment.Sound.ending?_of_tell {e : Event} (sound : Sound ⟨s, some t⟩)
    (hw : t.work = .tell e :: rest) : e.ending? = none := by
  rcases sound.active t rfl with hn | ⟨⟨lane, k, serves, -⟩, -⟩ | ⟨r, past⟩
  · rw [hw] at hn
    cases hn
  · obtain ⟨ws, -, hl⟩ := serves.work_cons hw
    rcases hl.cases_cons with ⟨hp, -⟩ | ⟨hb, -⟩ | ⟨-, hj | hj, -⟩ | ⟨ws, -, walk⟩ | ⟨hb, -⟩
    · cases hp
    · unfold Lane.begin at hb
      split at hb <;> cases hb
    · cases hj
    · cases hj
    · have own := walk.head
      cases e <;> first | rfl | exact absurd own id
    · unfold Lane.finish at hb
      split at hb <;> cases hb
  · rcases past.cases_cons hw with ⟨hs, -⟩ | ⟨ws, -, quiet, -⟩
    · cases hs
    · exact Event.ending?_of_isOfRun quiet

namespace State

theorem endings_eq (s : State) : s.endings = s.notes.reverse.filterMap fun n => n.2.ending? := by
  unfold endings events
  rw [List.filterMap_filterMap]
  refine List.filterMap_congr fun n _ => ?_
  obtain ⟨time, n⟩ := n
  cases n <;> rfl

theorem endings_congr {s s' : State} (h : s'.events = s.events) : s'.endings = s.endings := by
  simp only [endings, h]

theorem endings_tell {e : Event} (h : e.isOfRun = true) (s : State) :
    (s.tell e).endings = s.endings := by
  simp [endings, Event.ending?_of_isOfRun h]

end State

theorem Intervention.endings_take (setup : Setup) (s : State) (i : Intervention) :
    (i.take setup s).2.endings = s.endings := by
  have change {before after : Phase} {e : Event} (h : e.isOfRun = true) :
      (s.change before after e).2.endings = s.endings := by
    unfold State.change State.transition
    by_cases hp : s.phase = before
    · rw [if_pos hp]
      exact State.endings_tell h _
    · rw [if_neg hp]
  cases i with
  | start script =>
    simp only [take, State.start, State.openRun]
    split
    · by_cases hp : s.phase = .idle
      · rw [if_pos hp]
        exact State.endings_tell (e := .scriptStarted script.name) rfl _
      · rw [if_neg hp]
    · rfl
  | pause => exact change rfl
  | resume => exact change rfl
  | stop =>
    have cleared : s.halt.2.clear.endings = s.endings :=
      State.endings_congr ((State.events_clear _).trans s.events_halt)
    simp only [take, State.stop]
    split
    · exact (State.endings_tell rfl _).trans cleared
    · exact cleared

/-- A happening adds to the endings on record the one that it shows, if any. -/
theorem Moment.Step.endings (st : m.Step setup e m') (sound : m.Sound) :
    m'.state.endings = m.state.endings ++ e.ending?.toList := by
  cases e with
  | worked w s t job =>
    obtain ⟨rest, hw, rfl, ⟨threads, hs⟩, -⟩ := st.after
    have untold : ∀ e, job = .tell e → e.ending? = none := by
      rintro e rfl
      exact sound.ending?_of_tell hw
    have told : (job.note? w s).bind Note.ending? = (job.mark w).bind Mark.ending? :=
      Job.ending?_note? untold w s
    rw [hs, Happening.ending?, Happening.mark?, ← told, State.endings_eq, State.endings_eq,
      job.notes_run setup w s]
    cases job.note? w s with
    | none => simp
    | some n => cases hn : n.ending? <;> simp [hn]
  | asked i =>
    cases st with
    | ask s i => simpa [Happening.ending?, Happening.mark?] using i.endings_take setup s
  | shifted => cases st <;> exact (List.append_nil _).symm

/-- In every course the endings that are shown are put on record, and no others. -/
theorem Course.endings_eq (c : Course setup m hs m') (sound : m.Sound) :
    m'.state.endings = m.state.endings ++ hs.filterMap Happening.ending? := by
  induction c with
  | refl => simp
  | @snoc m₁ m₂ hs e c st ih =>
    rw [st.endings (c.sound sound), ih, List.filterMap_append, List.append_assoc]
    cases he : e.ending? <;> simp [he]

/-! ### What iterations leave -/

/-- Nobody but the loop of the run puts the ending of a step on record or changes the registry. -/
structure Happening.IsLone (r : Run) (e : Happening) : Prop where
  recorded : ∀ w s t job, e = .worked w s t job → e.ending?.isSome = true → t.isLoopOf r = true
  registered : e.meddles r = false

theorem Happening.IsLone.ending?_eq (lone : e.IsLone r) :
    e.ending? = (e.loopMark? r).bind Mark.ending? := by
  cases e with
  | worked w s t job =>
    simp only [loopMark?]
    split
    · rfl
    · rename_i other
      have silent := mt (lone.recorded w s t job rfl) other
      simpa using silent
  | asked | shifted => rfl

/-- Before an iteration nothing of it has been shown. -/
theorem Run.Progress.eq_nil_of_begins {part : List Mark} {pauses : Work}
    (h : r.Progress w part (pauses ++ .iterate r :: State.closing r)) : part = [] := by
  generalize hl : pauses ++ Job.iterate r :: State.closing r = l at h
  cases h with
  | waiting | opening => rfl
  | walking =>
    obtain ⟨-, same⟩ := List.append_inj' hl rfl
    cases same
  | counting =>
    have hl : pauses ++ .iterate r :: State.closing r = [] ++ .count r :: State.closing r := hl
    obtain ⟨-, same⟩ := List.append_inj' hl rfl
    cases same

theorem filterMap_rounds {α β : Type} (f : α → Option β) (k : Nat) (round part : List α) :
    ((List.replicate k round).flatten ++ part).filterMap f =
      (List.replicate k (round.filterMap f)).flatten ++ part.filterMap f := by
  simp [List.filterMap_flatten]

/-- As long as nobody interferes, and the loop of a run alone puts endings on record and registers
observers, every iteration adds an ending for each action that it enters and registers each observer that
it reaches. The iteration at hand has done so for the first of them; it has for all of them if it stopped
the run, and for none if it is yet to begin. -/
theorem Course.leaves {m₀ m : Moment} {hs₀ hs : List Happening} (c₀ : Course setup .fresh hs₀ m₀)
    (begins : m₀.Begins r) (running : m₀.state.phase = .running) (c : Course setup m₀ hs m)
    (calm : ∀ e ∈ hs, e.IsCalm w) (lone : ∀ e ∈ hs, e.IsLone r) :
    ∃ k endings reached, endings <+: r.endings w ∧ reached <+: r.reached w ∧
      m.state.endings = m₀.state.endings ++ ((List.replicate k (r.endings w)).flatten ++ endings) ∧
      (m.state.isCancelled r.token = false → m.state.registry =
        m₀.state.registry.enlistAll ((List.replicate k (r.reached w)).flatten ++ reached)) ∧
      (m.state.run = some r → m.state.iterations = m₀.state.iterations + k) ∧
      (m.state.isCancelled r.token = true → k = 0 ∧ endings = r.endings w) ∧
      (m.Begins r → endings = [] ∧ reached = []) := by
  have sound₀ : m₀.Sound := c₀.sound Moment.sound_fresh
  obtain ⟨k, part, marks, isPrefix, stops, iterations, whole, goes⟩ :=
    c.iterates sound₀ begins (by simp [running]) calm
  have ended : (r.reading w).marks.filterMap Mark.ending? = r.endings w :=
    Forest.dues_reading (Mark.dues_ending w r) r.script.steps
  have enlisted : (r.reading w).marks.filterMap Mark.enlisting? = r.reached w :=
    @Forest.dues_reading _ w ⟨r, true⟩ _ _ (Mark.dues_enlisting w r) r.script.steps
  refine ⟨k, part.filterMap Mark.ending?, part.filterMap Mark.enlisting?, ended ▸ isPrefix.filterMap _,
    enlisted ▸ isPrefix.filterMap _, ?_, ?_, iterations, ?_, ?_⟩
  · have shown : hs.filterMap Happening.ending? =
        (hs.filterMap (·.loopMark? r)).filterMap Mark.ending? := by
      rw [List.filterMap_filterMap]
      exact List.filterMap_congr fun e he => (lone e he).ending?_eq
    rw [c.endings_eq sound₀, shown, marks, filterMap_rounds, ended]
  · intro live
    obtain ⟨pauses, -, loops₀⟩ := begins
    rw [c.registry_eq sound₀ loops₀ live fun e he => (lone e he).registered, Piece.enlistings,
      Piece.marks, ← c.loopMarks_eq sound₀, marks, filterMap_rounds, enlisted]
  · intro hc
    have whole := whole hc
    exact ⟨stops (by rw [whole]), by rw [← ended, whole]⟩
  · rintro ⟨pauses, hp, loops⟩
    obtain ⟨work, progress, loops'⟩ := goes loops.live
    obtain rfl := loops'.unique loops (c.sound sound₀)
    rw [progress.eq_nil_of_begins]
    exact ⟨rfl, rfl⟩

/-- A whole iteration leaves on record one ending for each action that it enters, and in the registry each
observer that it reaches. -/
theorem Run.Completes.leaves {hs₀ : List Happening} (h : r.Completes setup m hs m')
    (c₀ : Course setup .fresh hs₀ m) (running : m.state.phase = .running)
    (calm : ∀ e ∈ hs, e.IsCalm w) (lone : ∀ e ∈ hs, e.IsLone r) :
    m'.state.endings = m.state.endings ++ r.endings w ∧
      m'.state.registry = m.state.registry.enlistAll (r.reached w) := by
  obtain ⟨k, endings, reached, -, -, recorded, registered, iterations, -, none⟩ :=
    c₀.leaves h.begins running h.course calm lone
  obtain ⟨pauses, -, loops⟩ := h.ends
  obtain ⟨rfl, rfl⟩ := none h.ends
  have one : k = 1 := Nat.add_left_cancel ((iterations loops.run).symm.trans h.one)
  subst one
  exact ⟨by simpa using recorded, by simpa using registered loops.live⟩

/-- A script with an action that succeeds, an observer, and an action whose target is not on the screen. -/
def Script.mixed : Script :=
  let header (id : String) : Header := ⟨id, none, none, none⟩
  { (default : Script) with
    name := "mixed"
    steps := [.action (header "go") (.flow .proceed),
      .observer (header "eye") (.present (.position ⟨1, 1⟩)) [],
      .action (header "click") (.mouse (.leftClick (.position ⟨2, 2⟩)))] }

/-- Its iteration leaves two endings on record, and the observer in the registry. -/
theorem leaves_mixed :
    ∃ (w : World) (r : Run) (m m' : Moment) (hs₀ hs : List Happening),
      Course ⟨{}, 500, true⟩ .fresh hs₀ m ∧ r.Completes ⟨{}, 500, true⟩ m hs m' ∧
      m.state.phase = .running ∧ (∀ e ∈ hs, e.IsCalm w) ∧ (∀ e ∈ hs, e.IsLone r) ∧
      m'.state.endings = [⟨"go", none⟩, ⟨"click", some "LeftClick failed"⟩] ∧
      (r.reached w).map Enlisting.id = ["eye"] ∧
      m'.state.registry = Registry.enlistAll {} (r.reached w) := by
  let w : World := .showing fun _ => .ok none
  let r : Run := ⟨0, Script.mixed.withDefaults⟩
  let m : Moment := ⟨(({} : State).start ⟨{}, 500, true⟩ .mixed).2, none⟩
  have c₀ : Course ⟨{}, 500, true⟩ .fresh _ m := .single (.ask {} (.start .mixed))
  obtain ⟨begins, running⟩ : m.Begins r ∧ m.state.phase = .running :=
    Moment.begins_start State.orderly_fresh rfl
  obtain ⟨hs, m', c, steady, found⟩ := @Moment.exists_course ⟨{}, 500, true⟩ m w
    (.turn 0 :: List.replicate 33 .go ++ [.turn 1, .go])
    (fun hs m' => Course.isRound r m hs m' && hs.all fun e =>
      !e.isPause && !e.isStop && e.ending? == (e.loopMark? r).bind Mark.ending?)
    (by decide +kernel)
  obtain ⟨round, each⟩ := Bool.and_eq_true_iff.mp found
  obtain ⟨whole, quiet⟩ := Run.Completes.of_isRound c (c₀.sound Moment.sound_fresh) begins steady round
  simp only [List.all_eq_true, Bool.and_eq_true, Bool.not_eq_true', beq_iff_eq] at each
  have calm : ∀ e ∈ hs, e.IsCalm w := fun e he => ⟨steady e he, (each e he).1.1, (each e he).1.2⟩
  have lone : ∀ e ∈ hs, e.IsLone r := by
    refine fun e he => ⟨?_, (quiet e he).alone⟩
    rintro w' s t job rfl recorded
    rw [(each _ he).2, Happening.loopMark?] at recorded
    by_contra other
    simp [other] at recorded
  obtain ⟨recorded, registered⟩ := whole.leaves c₀ running calm lone
  have endings : r.endings w = [⟨"go", none⟩, ⟨"click", some "LeftClick failed"⟩] := by decide +kernel
  rw [endings] at recorded
  exact ⟨w, r, m, m', _, hs, c₀, whole, running, calm, lone, recorded, by decide +kernel, registered⟩

end DeskScript
