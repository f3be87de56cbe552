import DeskScript.Proofs.Resuming
import DeskScript.Proofs.Ticks
import Mathlib.Data.Set.List

/-! Attempts at an action: each target is looked for once, at most one request is made, and its outcome is
that of the step. -/

namespace DeskScript

/-! ### Pieces of work, one after the other -/

/-- What a piece of work tells. -/
def Piece.note? (p : Piece) : Option Note := p.job.note? p.world p.state

/-- What is told of a look is what is seen there. -/
theorem Piece.sighting_eq {p : Piece} {e : Element} {sighting : Sighting}
    (h : p.note? = some (.looked e sighting)) : sighting = p.world.find e := by
  unfold Piece.note? Job.note? at h
  split at h
  case h_2 | h_3 | h_4 =>
    cases h
    rfl
  case h_5 => split at h <;> cases h
  all_goals cases h

namespace Work.Goes

variable {setup : Setup} {work work' mid rest : Work} {ps qs : List Piece} {p : Piece} {job : Job}

theorem trans (first : work.Goes setup ps mid) (second : mid.Goes setup qs work') :
    work.Goes setup (ps ++ qs) work' := by
  induction second with
  | refl => simpa using first
  | snoc _ hh ih =>
    rw [← List.append_assoc]
    exact ih.snoc hh

theorem cons (hh : p.job.isHalt = false) (goes : (p.next setup ++ rest).Goes setup ps work') :
    Goes setup (p.job :: rest) (p :: ps) work' := by
  have first : Goes setup (p.job :: rest) ([] ++ [p]) (p.next setup ++ rest) := .snoc .refl hh
  exact first.trans goes

theorem isHalt_eq_false (goes : work.Goes setup ps work') : ∀ p ∈ ps, p.job.isHalt = false := by
  induction goes with
  | refl => simp
  | snoc _ hh ih => simpa [or_imp, forall_and] using ⟨ih, hh⟩

/-- Nothing has been done yet, or the first piece of work has. -/
theorem cases_cons (goes : Goes setup (job :: rest) ps work') :
    (ps = [] ∧ work' = job :: rest) ∨ ∃ p qs, ps = p :: qs ∧ p.job = job ∧ p.job.isHalt = false ∧
      (p.next setup ++ rest).Goes setup qs work' := by
  cases ps with
  | nil => exact .inl ⟨rfl, goes.eq_of_nil rfl⟩
  | cons p qs =>
    obtain ⟨rest', hw, second⟩ := goes.of_cons
    obtain ⟨hj, rfl⟩ := List.cons.inj hw
    exact .inr ⟨p, qs, rfl, hj.symm, goes.isHalt_eq_false p List.mem_cons_self, second⟩

/-- The work that comes first is done first, and the work after it once nothing of it is left. -/
theorem split_append (goes : Goes setup (work ++ rest) ps work') :
    (∃ left, work' = left ++ rest ∧ work.Goes setup ps left) ∨
      ∃ done later, ps = done ++ later ∧ work.Goes setup done [] ∧ rest.Goes setup later work' := by
  generalize hw : work ++ rest = all at goes
  induction goes with
  | refl => exact .inl ⟨work, hw.symm, .refl⟩
  | @snoc ps p after _ hh ih =>
    rcases ih with ⟨left, hl, goes⟩ | ⟨done, later, rfl, first, second⟩
    · cases left with
      | nil =>
        refine .inr ⟨ps, [p], rfl, goes, ?_⟩
        rw [List.nil_append] at hl
        exact hl ▸ .cons hh .refl
      | cons job left =>
        obtain ⟨rfl, rfl⟩ := List.cons.inj hl
        exact .inl ⟨p.next setup ++ left, (List.append_assoc ..).symm, goes.snoc hh⟩
    · exact .inr ⟨done, later ++ [p], List.append_assoc .., first, second.snoc hh⟩

end Work.Goes

/-! ### Requests -/

/-- What an action has to find, in this order: what it is about, or the start and the finish of a drag. -/
def Action.sought : Action → List Element
  | .mouse (.leftClick e) => [e]
  | .mouse (.rightClick e) => [e]
  | .mouse (.doubleClick e) => [e]
  | .mouse (.moveTo e) => [e]
  | .mouse (.drag start finish) => [start, finish]
  | .mouse (.scroll _ _) | .keyboard _ | .system _ | .flow _ => []

theorem Action.targets_eq_sought (a : Action) : a.targets = a.sought := by
  rcases a with m | k | s | f
  · cases m <;> rfl
  all_goals rfl

/-- The request for an action whose targets are at these places. -/
def Action.request? : Action → List Coordinate → Option Call
  | .mouse (.leftClick _), [p] => some (.leftClick p)
  | .mouse (.rightClick _), [p] => some (.rightClick p)
  | .mouse (.doubleClick _), [p] => some (.doubleClick p)
  | .mouse (.moveTo _), [p] => some (.move p)
  | .mouse (.drag _ _), [p, q] => some (.drag p q)
  | .mouse (.scroll n d), [] => some (.scroll n d)
  | .keyboard (.typeText text), [] => some (.typeText text)
  | .keyboard (.pressKey key), [] => some (.key key)
  | .keyboard (.pressCombination (key :: keys)), [] => some (.combination (key :: keys))
  | _, _ => none

def Deed.call? : Deed → Option Call
  | .call c => some c
  | _ => none

/-- Where an action goes after these sightings of its targets. -/
def Aim.ofSightings (sightings : List Sighting) : Aim where
  place := sightings[0]?.bind Sighting.place?
  finish := sightings[1]?.bind Sighting.place?

/-- Each target is looked for once, the first one first. -/
theorem Action.yields_aim {a : Action} {log : List (Element × Sighting)} {aim : Aim}
    (h : a.aim.Yields log aim) : ∃ sightings : List Sighting, sightings.length = a.targets.length ∧
      log = a.targets.zip sightings ∧ aim = .ofSightings sightings := by
  unfold Action.aim at h
  split at h
  · rename_i none
    obtain ⟨rfl, rfl⟩ := Inquiry.yields_done.mp h
    exact ⟨[], by rw [none]; rfl, by rw [none]; rfl, rfl⟩
  · rename_i e one
    cases h with
    | ask s h =>
      obtain ⟨rfl, rfl⟩ := Inquiry.yields_done.mp h
      exact ⟨[s], by rw [one]; rfl, by rw [one]; rfl, rfl⟩
  · rename_i e₁ e₂ more two
    have last : more = [] := by
      rcases a with m | k | s | f
      · cases m <;> simp_all [targets]
      all_goals cases two
    subst last
    cases h with
    | ask s₁ h =>
      cases h with
      | ask s₂ h =>
        obtain ⟨rfl, rfl⟩ := Inquiry.yields_done.mp h
        exact ⟨[s₁, s₂], by rw [two]; rfl, by rw [two]; rfl, rfl⟩

/-- What is seen of an element that is at this place. -/
def Sighting.found (p : Coordinate) : Sighting := .ok (some p)

theorem Sighting.place?_eq_some {s : Sighting} {p : Coordinate} : s.place? = some p ↔ s = found p := by
  cases s <;> simp [place?, found]

/-- Once all targets have been found, the request is for the places where they are. -/
theorem Action.call?_of_found {a : Action} {places : List Coordinate}
    (each : places.length = a.targets.length) :
    (a.deed (.ofSightings (places.map Sighting.found))).call? = a.request? places := by
  rcases a with m | k | s | f
  · cases m with
    | drag =>
      obtain ⟨p, q, rfl⟩ := List.length_eq_two.mp each
      rfl
    | scroll =>
      obtain rfl := List.eq_nil_of_length_eq_zero each
      rfl
    | _ =>
      obtain ⟨p, rfl⟩ := List.length_eq_one_iff.mp each
      rfl
  · obtain rfl := List.eq_nil_of_length_eq_zero each
    rcases k with text | key | _ | ⟨key, keys⟩ <;> rfl
  · obtain rfl := List.eq_nil_of_length_eq_zero each
    cases s <;> rfl
  · obtain rfl := List.eq_nil_of_length_eq_zero each
    rfl

/-- Without a place for each target there is no request. -/
theorem Action.call?_of_missing {a : Action} {sightings : List Sighting}
    (each : sightings.length = a.targets.length) {s : Sighting} (hs : s ∈ sightings)
    (missing : s.place? = none) : (a.deed (.ofSightings sightings)).call? = none := by
  cases hl : a.targets with
  | nil =>
    rw [hl] at each
    rw [List.eq_nil_of_length_eq_zero each] at hs
    cases hs
  | cons e es =>
    rcases a with m | k | s | f
    · cases m with
      | drag =>
        obtain ⟨s₁, s₂, rfl⟩ := List.length_eq_two.mp each
        rcases List.mem_pair.mp hs with rfl | rfl
        · simp [deed, MouseAction.deed, Aim.ofSightings, missing, Deed.call?]
        · cases s₁.place? <;> simp [deed, MouseAction.deed, Aim.ofSightings, missing, Deed.call?]
      | scroll => cases hl
      | _ =>
        obtain ⟨s', rfl⟩ := List.length_eq_one_iff.mp each
        obtain rfl := List.mem_singleton.mp hs
        simp [deed, MouseAction.deed, MouseAction.deed.atPlace, Aim.ofSightings, missing, Deed.call?]
    all_goals cases hl

/-- With all targets found there is a request for each action of the mouse or the keyboard, but for a
combination of no keys. -/
theorem Action.isSome_request? {a : Action} {places : List Coordinate}
    (each : places.length = a.targets.length) :
    (a.request? places).isSome = true ↔
      a.isInput = true ∧ a ≠ .keyboard (.pressCombination []) := by
  rcases a with m | k | s | f
  · cases m with
    | drag =>
      obtain ⟨p, q, rfl⟩ := List.length_eq_two.mp each
      simp [request?, isInput]
    | scroll =>
      obtain rfl := List.eq_nil_of_length_eq_zero each
      simp [request?, isInput]
    | _ =>
      obtain ⟨p, rfl⟩ := List.length_eq_one_iff.mp each
      simp [request?, isInput]
  · obtain rfl := List.eq_nil_of_length_eq_zero each
    rcases k with text | key | _ | ⟨key, keys⟩ <;> simp [request?, isInput]
  · simp [request?, isInput]
  · simp [request?, isInput]

/-- What an action comes to. Only those of the system come to anything else. -/
theorem Action.cases_deed (a : Action) (aim : Aim) :
    (∃ s, a = .system s) ∨ (∃ f, a = .flow f ∧ a.deed aim = .nothing) ∨
      (∀ f, a ≠ .flow f) ∧ ((∃ c, a.deed aim = .call c) ∨ ∃ cause, a.deed aim = .refused cause) := by
  rcases a with m | k | s | f
  · refine .inr (.inr ⟨nofun, ?_⟩)
    cases m with
    | drag =>
      simp only [deed, MouseAction.deed]
      split <;> simp
    | scroll => exact .inl ⟨_, rfl⟩
    | _ =>
      simp only [deed, MouseAction.deed, MouseAction.deed.atPlace]
      split <;> simp
  · refine .inr (.inr ⟨nofun, ?_⟩)
    cases k with
    | pressCombination =>
      simp only [deed, KeyboardAction.deed]
      split <;> simp
    | _ => exact .inl ⟨_, rfl⟩
  · exact .inl ⟨s, rfl⟩
  · exact .inr (.inl ⟨f, rfl, rfl⟩)

/-! ### Attempts -/

/-- How it goes with an action: what is seen where its targets are looked for, the request that is made
with its success, and what is reported after this time. -/
structure Attempt where
  sightings : List Sighting
  call : Option (Call × Bool)
  duration : Nat
  ok : Bool

/-- What is recorded of an attempt: that the step has succeeded, or that it has failed, and in what time. -/
def Attempt.event (t : Attempt) (h : Header) (a : Action) : Event :=
  match t.ok with
  | true => .stepSucceeded (Step.action h a).displayName t.duration
  | false => .stepFailed (Step.action h a).displayName t.duration s!"{a.name} failed"

/-- What is told of an attempt, in this order. -/
def Attempt.notes (t : Attempt) (h : Header) (a : Action) : List Note :=
  a.sought.zipWith .looked t.sightings ++ (t.call.map fun c => .called c.1 c.2).toList ++
    [.event (t.event h a)]

theorem Attempt.outcomeEvent_eq (t : Attempt) (h : Header) (a : Action) :
    Job.outcomeEvent (.action h a) a t.duration t.ok = t.event h a := by
  unfold event
  cases t.ok
  · exact Job.outcomeEvent_false ..
  · exact Job.outcomeEvent_true ..

/-- Whether it can go with the action like this. -/
structure Action.Admits (a : Action) (t : Attempt) : Prop where
  /-- Each target is looked for. -/
  looks : t.sightings.length = a.sought.length
  /-- A request is made if the mouse or the keyboard is to be used, all targets have been found, and there
  is a key to press. -/
  calls : t.call.isSome = true ↔ a.isInput = true ∧ (∀ s ∈ t.sightings, ∃ p, s = .found p) ∧
    a ≠ .keyboard (.pressCombination [])
  /-- It is the request for the places where the targets have been found. -/
  request : ∀ places : List Coordinate, t.sightings = places.map .found →
    t.call.map Prod.fst = a.request? places
  /-- Outside the system the step succeeds if the request does, or if there is nothing to be done. -/
  outcome : (∀ s, a ≠ .system s) →
    (t.ok = true ↔ (∃ c, t.call = some (c, true)) ∨ ∃ f, a = .flow f)

/-- How it goes with an action once its targets have been looked for. -/
def Action.attempt (a : Action) (sightings : List Sighting) (w : World) (duration : Nat) : Attempt where
  sightings := sightings
  call := (a.deed (.ofSightings sightings)).call?.map fun c => (c, (w.input c).isOk)
  duration := duration
  ok := (w.perform (a.deed (.ofSightings sightings))).isOk

theorem Action.admits_attempt {a : Action} {sightings : List Sighting}
    (each : sightings.length = a.targets.length) (w : World) (duration : Nat) :
    a.Admits (a.attempt sightings w duration) where
  looks := a.targets_eq_sought ▸ each
  calls := by
    by_cases all : ∀ s ∈ sightings, ∃ p, s = .found p
    · have listed : sightings ∈ Set.range (List.map Sighting.found) := by
        rw [Set.range_list_map]
        exact fun s hs => (all s hs).imp fun p seen => seen.symm
      obtain ⟨places, rfl⟩ := listed
      rw [List.length_map] at each
      simp [attempt, call?_of_found each, isSome_request? each]
    · obtain ⟨s, hs, unseen⟩ : ∃ s ∈ sightings, ∀ p, s ≠ .found p := by simpa using all
      have missing : s.place? = none :=
        Option.eq_none_iff_forall_ne_some.mpr fun p seen => unseen p (Sighting.place?_eq_some.mp seen)
      simp only [attempt, call?_of_missing each hs missing]
      simp [all]
  request := by
    rintro places rfl
    rw [List.length_map] at each
    change Option.map Prod.fst (Option.map _ _) = _
    rw [call?_of_found each, Option.map_map]
    exact Option.map_id'
  outcome := by
    intro other
    rcases a.cases_deed (.ofSightings sightings) with ⟨s, rfl⟩ | ⟨f, rfl, nothing⟩ |
      ⟨active, ⟨c, call⟩ | ⟨cause, refused⟩⟩
    · exact absurd rfl (other s)
    · simp [attempt, nothing, World.perform, Except.isOk, Except.toBool]
    · simp [attempt, call, World.perform, Deed.call?, active]
    · simp [attempt, refused, World.perform, Deed.call?, active, Except.isOk, Except.toBool]

/-! ### The work for an action -/

/-- Whether the work is for an action, or left after it. -/
inductive Action.Working (h : Header) (a : Action) : Work → Prop
  | body (lane : Lane) : Working h a [.body lane (.action h a)]
  | aim (since : Nat) (q : Inquiry Aim) : Working h a [.aim (.action h a) a since q]
  | act (since : Nat) (aim : Aim) : Working h a [.act (.action h a) a since aim]
  | rest (ms : UInt64) (since : Nat) (ok : Bool) :
    Working h a [.rest ms, .report (.action h a) a since ok]
  | report (since : Nat) (ok : Bool) : Working h a [.report (.action h a) a since ok]
  | done {work : Work} : work = Job.afterAction a → Working h a work

theorem Job.isHalt_of_afterAction {a : Action} {job : Job} {rest : Work}
    (h : job :: rest = afterAction a) : job.isHalt = true := by
  unfold afterAction at h
  split at h
  · cases h
    rfl
  · cases h

/-- What is left of the work for an action when it has been asked, acted or waited. -/
theorem Action.Working.next {h : Header} {a : Action} {job : Job} {rest : Work}
    (working : a.Working h (job :: rest)) (hh : job.isHalt = false) (setup : Setup) (w : World)
    (s : State) : a.Working h ((job.run setup w s).next ++ rest) := by
  cases working with
  | body lane => exact .aim s.clock a.aim
  | aim since q =>
    cases q with
    | done aim => exact .act since aim
    | ask e next => exact .aim since (next (w.find e))
  | act since aim =>
    simp only [Job.run, Job.perform, List.append_nil]
    cases a.deed aim with
    | wait ms => exact .rest ms since _
    | _ => exact .report since _
  | rest ms since ok => exact .report since ok
  | report since ok => exact .done (List.append_nil _)
  | done last => simp [Job.isHalt_of_afterAction last] at hh

namespace Work

/-- Whether the work comes to this, in whatever worlds and states its pieces are done. -/
def Ends (setup : Setup) (work work' : Work) : Prop :=
  ∀ supply : Nat → World × State, ∃ ps, work.Goes setup ps work' ∧
    ∀ i p, ps[i]? = some p → supply i = (p.world, p.state)

variable {setup : Setup} {work work' rest : Work} {ps : List Piece} {job : Job}

theorem Ends.refl : Ends setup work work := fun _ => ⟨[], .refl, by simp⟩

theorem Ends.cons (hh : job.isHalt = false)
    (next : ∀ w s, Ends setup ((job.run setup w s).next ++ rest) work') :
    Ends setup (job :: rest) work' := by
  intro supply
  let first : Piece := ⟨(supply 0).1, (supply 0).2, job⟩
  obtain ⟨ps, goes, supplied⟩ := next first.world first.state fun i => supply (i + 1)
  refine ⟨first :: ps, .cons hh goes, ?_⟩
  intro i p hp
  cases i with
  | zero =>
    cases hp
    rfl
  | succ i => exact supplied i p (by simpa using hp)

/-- The work for an action comes to its end. -/
theorem ends_of_working {h : Header} {a : Action} (working : a.Working h work) (rest : Work) :
    Ends setup (work ++ rest) (Job.afterAction a ++ rest) := by
  have report (since : Nat) (ok : Bool) :
      Ends setup ([.report (.action h a) a since ok] ++ rest) (Job.afterAction a ++ rest) :=
    .cons rfl fun _ _ => .refl
  have act (since : Nat) (aim : Aim) :
      Ends setup ([.act (.action h a) a since aim] ++ rest) (Job.afterAction a ++ rest) := by
    refine .cons rfl fun w s => ?_
    simp only [Job.run, Job.perform]
    cases a.deed aim with
    | wait ms => exact .cons rfl fun _ _ => report since _
    | _ => exact report since _
  have aim (since : Nat) (q : Inquiry Aim) :
      Ends setup ([.aim (.action h a) a since q] ++ rest) (Job.afterAction a ++ rest) := by
    induction q with
    | done aim => exact .cons rfl fun _ _ => act since aim
    | ask e next ih => exact .cons rfl fun w _ => ih (w.find e)
  cases working with
  | body lane => exact .cons rfl fun _ s => aim s.clock a.aim
  | aim since q => exact aim since q
  | act since place => exact act since place
  | rest ms since ok => exact .cons rfl fun _ _ => report since ok
  | report since ok => exact report since ok
  | done last => exact last ▸ .refl

end Work

namespace Work.Goes

variable {setup : Setup} {work work' rest : Work} {ps : List Piece} {job : Job} {h : Header}
  {a : Action}

theorem working (goes : work.Goes setup ps work') (first : a.Working h work) : a.Working h work' := by
  induction goes with
  | refl => exact first
  | @snoc _ p _ _ hh ih => exact ih.next hh setup p.world p.state

/-- Work for an action that has come to its end has been begun. -/
theorem begun (goes : Goes setup (job :: rest) ps (Job.afterAction a)) (hh : job.isHalt = false) :
    ∃ w s qs, ps = ⟨w, s, job⟩ :: qs ∧
      Goes setup ((job.run setup w s).next ++ rest) qs (Job.afterAction a) := by
  rcases goes.cases_cons with ⟨-, none⟩ | ⟨⟨w, s, _⟩, qs, rfl, rfl, -, goes⟩
  · simp [Job.isHalt_of_afterAction none.symm] at hh
  · exact ⟨w, s, qs, rfl, goes⟩

/-- At its end nothing more is done for an action. -/
theorem finished (goes : (Job.afterAction a).Goes setup ps (Job.afterAction a)) : ps = [] := by
  cases ps with
  | nil => rfl
  | cons p ps =>
    obtain ⟨rest, first, -⟩ := goes.of_cons
    have halt := Job.isHalt_of_afterAction first.symm
    simp [goes.isHalt_eq_false p List.mem_cons_self] at halt

/-- The outcome of an action is told, once. -/
theorem of_report {step : Step} {since : Nat} {ok : Bool}
    (goes : Goes setup [.report step a since ok] ps (Job.afterAction a)) :
    ∃ duration, ps.filterMap Piece.note? = [.event (Job.outcomeEvent step a duration ok)] := by
  obtain ⟨w, s, qs, rfl, next⟩ := goes.begun rfl
  have last : (Job.afterAction a).Goes setup qs (Job.afterAction a) := by
    simpa [Job.run] using next
  rw [last.finished]
  exact ⟨s.clock - since, rfl⟩

/-- If there is a request it is made, in the world in which the action is done. -/
theorem of_act {step : Step} {since : Nat} {aim : Aim}
    (goes : Goes setup [.act step a since aim] ps (Job.afterAction a)) :
    ∃ (w : World) (duration : Nat), ps.filterMap Piece.note? =
      ((a.deed aim).call?.map fun c => .called c (w.input c).isOk).toList ++
        [.event (Job.outcomeEvent step a duration (w.perform (a.deed aim)).isOk)] := by
  obtain ⟨w, s, qs, rfl, next⟩ := goes.begun rfl
  -- What the action comes to is told before its outcome, which is reported next or after a rest.
  have told : ∃ duration, qs.filterMap Piece.note? =
      [.event (Job.outcomeEvent step a duration (w.perform (a.deed aim)).isOk)] := by
    simp only [Job.run, Job.perform, List.append_nil] at next
    cases hd : a.deed aim with
    | wait ms =>
      rw [hd] at next
      obtain ⟨w', s', qs, rfl, last⟩ := next.begun rfl
      obtain ⟨duration, told⟩ := of_report last
      exact ⟨duration, told⟩
    | _ =>
      rw [hd] at next
      exact of_report next
  obtain ⟨duration, told⟩ := told
  refine ⟨w, duration, ?_⟩
  rw [List.filterMap_cons, told]
  simp only [Piece.note?, Job.note?]
  cases a.deed aim <;> rfl

/-- The targets of an action are looked for until it is known where it goes. -/
theorem of_aim {step : Step} {since : Nat} {q : Inquiry Aim}
    (goes : Goes setup [.aim step a since q] ps (Job.afterAction a)) :
    ∃ log aim before after, ps = before ++ after ∧ q.Yields log aim ∧
      before.filterMap Piece.note? = log.map (fun look => .looked look.1 look.2) ∧
      Goes setup [.act step a since aim] after (Job.afterAction a) := by
  induction q generalizing ps with
  | done aim =>
    obtain ⟨w, s, qs, rfl, next⟩ := goes.begun rfl
    exact ⟨[], aim, [⟨w, s, .aim step a since (.done aim)⟩], qs, rfl, .done aim, rfl, next⟩
  | ask e later ih =>
    obtain ⟨w, s, qs, rfl, next⟩ := goes.begun rfl
    obtain ⟨log, aim, before, after, rfl, yields, told, act⟩ := ih (w.find e) next
    refine ⟨(e, w.find e) :: log, aim, ⟨w, s, .aim step a since (.ask e later)⟩ :: before, after, rfl,
      .ask (w.find e) yields, ?_, act⟩
    rw [List.filterMap_cons, told]
    rfl

/-- A step of an action that has come to its end is an attempt at the action. -/
theorem of_body {lane : Lane} (goes : Goes setup [.body lane (.action h a)] ps work')
    (last : work' = Job.afterAction a) : ∃ t, a.Admits t ∧ ps.filterMap Piece.note? = t.notes h a := by
  subst last
  obtain ⟨w, s, qs, rfl, next⟩ := goes.begun rfl
  obtain ⟨log, aim, before, after, rfl, yields, looked, act⟩ := of_aim next
  obtain ⟨sightings, each, rfl, rfl⟩ := Action.yields_aim yields
  obtain ⟨w', duration, told⟩ := of_act act
  refine ⟨a.attempt sightings w' duration, Action.admits_attempt each w' duration, ?_⟩
  have first : Piece.note? ⟨w, s, .body lane (.action h a)⟩ = none := rfl
  have event : Job.outcomeEvent (.action h a) a duration
      (w'.perform (a.deed (.ofSightings sightings))).isOk =
        (a.attempt sightings w' duration).event h a :=
    (a.attempt sightings w' duration).outcomeEvent_eq h a
  rw [List.filterMap_cons, first, List.filterMap_append, looked, told, event, a.targets_eq_sought]
  simp [Attempt.notes, Action.attempt, List.zip, List.map_zipWith, Function.comp_def]

end Work.Goes

/-- For each action, and whatever is seen of its targets and comes of requests, a step looks for each
target once, the first one first, makes a request at most, and reports once whether it succeeded. All
it tells, as far as it has got, is the beginning of that, and it does get to the end. -/
theorem Action.attempts (setup : Setup) (lane : Lane) (h : Header) (a : Action) (rest : Work) :
    (∀ ps work, Work.Goes setup (.body lane (.action h a) :: rest) ps work → ∃ t, a.Admits t ∧
      ((∃ done later, ps = done ++ later ∧ done.filterMap Piece.note? = t.notes h a ∧
          (Job.afterAction a ++ rest).Goes setup later work) ∨
        work ≠ Job.afterAction a ++ rest ∧ ps.filterMap Piece.note? <+: t.notes h a)) ∧
    Work.Ends setup (.body lane (.action h a) :: rest) (Job.afterAction a ++ rest) := by
  have body : a.Working h [.body lane (.action h a)] := .body lane
  refine ⟨fun ps work goes => ?_, Work.ends_of_working body rest⟩
  have goes : Work.Goes setup ([.body lane (.action h a)] ++ rest) ps work := goes
  rcases goes.split_append with ⟨left, rfl, own⟩ | ⟨done, later, rfl, own, after⟩
  · by_cases last : left = Job.afterAction a
    · obtain ⟨t, admits, told⟩ := own.of_body last
      exact ⟨t, admits, .inl ⟨ps, [], (List.append_nil ps).symm, told, last ▸ .refl⟩⟩
    · -- The step is not done yet, but it could be carried on in any world and state.
      let w : World := (⟨[], []⟩ : Described).world fun _ => true
      obtain ⟨more, carried, -⟩ := Work.ends_of_working (own.working body) [] fun _ => (w, {})
      rw [List.append_nil, List.append_nil] at carried
      obtain ⟨t, admits, told⟩ := (own.trans carried).of_body rfl
      refine ⟨t, admits, .inr ⟨fun same => last (List.append_cancel_right same), ?_⟩⟩
      rw [← told, List.filterMap_append]
      exact List.prefix_append _ _
  · have last : [] = Job.afterAction a := by
      cases own.working body with
      | done last => exact last
    obtain ⟨t, admits, told⟩ := own.of_body last
    rw [← last]
    exact ⟨t, admits, .inl ⟨done, later, rfl, told, after⟩⟩

/-- A drag to a picture that is not on the screen. -/
theorem Action.attempts_drag :
    let drag : Action := .mouse (.drag (.position ⟨1, 2⟩) (.picture ⟨"target", none⟩))
    let seen (e : Element) : Sighting :=
      match e with
      | .position p => .found p
      | .picture _ => .ok none
    ∃ ps t, Work.Goes ⟨{}, 50, true⟩ [.body ⟨default, false⟩ (.action default drag)] ps [] ∧
      (∀ p ∈ ps, p.world.find = seen) ∧ drag.Admits t ∧
      ps.filterMap Piece.note? = t.notes default drag ∧ t.sightings = [.found ⟨1, 2⟩, .ok none] ∧
      t.call = none ∧ t.event default drag =
        .stepFailed (Step.action default drag).displayName t.duration "Drag failed" := by
  intro drag seen
  obtain ⟨attempts, ends⟩ := Action.attempts ⟨{}, 50, true⟩ ⟨default, false⟩ default drag []
  let w : World := ⟨seen, fun _ => .ok (), fun _ _ => .ok (), fun _ => .ok ()⟩
  obtain ⟨ps, goes, supplied⟩ := ends fun _ => (w, {})
  have screen : ∀ p ∈ ps, p.world.find = seen := by
    intro p hp
    obtain ⟨i, hi⟩ := List.mem_iff_getElem?.mp hp
    have same : w = p.world := congrArg Prod.fst (supplied i p hi)
    rw [← same]
  obtain ⟨t, admits, ⟨done, later, rfl, told, rest⟩ | ⟨unfinished, -⟩⟩ := attempts ps _ goes
  · have rest : (Job.afterAction drag).Goes ⟨{}, 50, true⟩ later (Job.afterAction drag) := rest
    obtain rfl := rest.finished
    have all : (done ++ []).filterMap Piece.note? = t.notes default drag := by
      rw [List.append_nil]
      exact told
    have looked : ∀ e s, Note.looked e s ∈ t.notes default drag → s = seen e := by
      intro e s h
      obtain ⟨p, hp, note⟩ := List.mem_filterMap.mp (all ▸ h)
      rw [← screen p hp]
      exact p.sighting_eq note
    obtain ⟨s₁, s₂, two⟩ := List.length_eq_two.mp admits.looks
    have notes : t.notes default drag = [.looked (.position ⟨1, 2⟩) s₁,
        .looked (.picture ⟨"target", none⟩) s₂] ++ (t.call.map fun c => .called c.1 c.2).toList ++
          [.event (t.event default drag)] := by
      rw [Attempt.notes, two]
      rfl
    have first : s₁ = .found ⟨1, 2⟩ := looked (.position ⟨1, 2⟩) s₁ (by simp [notes])
    have second : s₂ = .ok none := looked (.picture ⟨"target", none⟩) s₂ (by simp [notes])
    subst first second
    have uncalled : t.call = none := by
      rw [← Option.not_isSome_iff_eq_none, admits.calls, two]
      rintro ⟨-, found, -⟩
      obtain ⟨p, seen⟩ := found (.ok none) (by simp)
      cases seen
    have failed : t.ok = false := by
      rw [← Bool.not_eq_true, admits.outcome nofun, uncalled]
      rintro (⟨c, called⟩ | ⟨f, flow⟩)
      · cases called
      · exact nomatch flow
    refine ⟨_, t, goes, screen, admits, all, two, uncalled, ?_⟩
    rw [Attempt.event, failed]
    rfl
  · exact absurd rfl unfinished

end DeskScript
