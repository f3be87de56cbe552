import DeskScript.Proofs.Strokes
import DeskScript.Proofs.Ticks

/-! Where the observers that fire come from: a tick takes stock of the registry, and fires one of the
observers that it found there. -/

namespace DeskScript

variable {setup : Setup} {w : World} {s : State} {job : Job} {o : Observer} {c c' : Scene} {k : Stroke}

/-- Only an observer of the entries is found. -/
theorem Registry.of_scan_yields {es : List Entry} {log : List (Element × Sighting)}
    (h : (scan es).Yields log (some o)) : ∃ e ∈ es, e.observer = o := by
  induction es generalizing log with
  | nil => cases h
  | cons e es ih =>
    rw [scan, Inquiry.yields_bind] at h
    obtain ⟨-, truth, log, -, found, -⟩ := h
    split at found
    · obtain ⟨-, same⟩ := Inquiry.yields_done.mp found
      exact ⟨e, List.mem_cons_self, (Option.some.inj same).symm⟩
    · obtain ⟨e', he', same⟩ := ih found
      exact ⟨e', List.mem_cons_of_mem _ he', same⟩

namespace Job

/-- Whether the work may come to take in the observer as one that has fired. -/
def MayFire (o : Observer) : Job → Prop
  | .probe q => ∃ log, q.Yields log (some o)
  | .takeIn o' => o' = o
  | _ => False

/-- An observer may fire after a piece of work only if it might before, or was found in the registry. -/
theorem mayFire_next {j : Job} (hj : j ∈ (job.run setup w s).next) (fires : j.MayFire o) :
    job.MayFire o ∨ job = .survey ∧ ∃ e ∈ s.registry.entries, e.observer = o := by
  have quiet (none : ∀ j ∈ (job.run setup w s).next, ¬ j.MayFire o) : ¬ j.MayFire o := none j hj
  have of_lane (lane : Lane) (own : job.IsFor lane) : False := by
    have own := own.next j hj
    cases j with
    | probe | takeIn => exact own
    | _ => exact fires
  cases job with
  | survey =>
    obtain rfl : j = .probe (Registry.scan s.registry.candidates) := List.mem_singleton.mp hj
    obtain ⟨log, found⟩ := fires
    obtain ⟨e, he, same⟩ := Registry.of_scan_yields found
    exact .inr ⟨rfl, e, (Registry.mem_candidates.mp he).1, same⟩
  | probe q =>
    refine .inl ?_
    cases q with
    | ask e next =>
      obtain rfl : j = .probe (next (w.find e)) := List.mem_singleton.mp hj
      obtain ⟨log, found⟩ := fires
      exact ⟨_, .ask (w.find e) found⟩
    | done fired =>
      obtain ⟨o', rfl, rfl⟩ : ∃ o', fired = some o' ∧ j = .takeIn o' := by
        cases fired with
        | none => cases hj
        | some o' => exact ⟨o', rfl, List.mem_singleton.mp hj⟩
      obtain rfl : o' = o := fires
      exact ⟨[], .done _⟩
  | level l | levelOpen l | enter l | body l | decide l => exact (of_lane l rfl).elim
  | enlist r | enlistOpen r => exact (of_lane ⟨r, true⟩ rfl).elim
  | aim | act | report | rest | halt | clear | tell => exact (of_lane ⟨default, true⟩ trivial).elim
  | iterate | endIteration | watch | relax =>
    refine absurd fires (quiet ?_)
    simp only [run, guarded]
    split <;> simp [MayFire]
  | iterateOpen =>
    refine absurd fires (quiet ?_)
    simp only [run]
    split <;> simp [MayFire]
  | takeIn =>
    refine absurd fires (quiet ?_)
    simp only [run]
    split <;> simp [MayFire]
  | count | settle | giveWay => exact absurd fires (quiet (by simp [run, MayFire]))

end Job

/-- Whether a thread may come to take in the observer as one that has fired. -/
def Scene.MayFire (c : Scene) (o : Observer) : Prop :=
  ∃ t ∈ c.threads, ∃ j ∈ t.work ++ t.closing, j.MayFire o

/-- A stroke lets an observer fire only by finding it in the registry. -/
theorem Scene.Step.mayFire (st : c.Step setup k c') (h : c'.MayFire o) :
    c.MayFire o ∨ ∃ w t, k = .worked w c.state t .survey ∧
      ∃ e ∈ c.state.registry.entries, e.observer = o := by
  obtain ⟨u, hu, j, hj, fires⟩ := h
  cases k with
  | arrived q =>
    obtain ⟨hs, ha, -⟩ := st.after_arrive
    rw [Scene.threads, hs, ha] at hu
    exact .inl ⟨u, hu, j, hj, fires⟩
  | served s stage =>
    obtain ⟨rfl, -, ha, hs, -⟩ := st.after_serve
    refine .inl ?_
    rw [Scene.threads, ha, hs] at hu
    rcases List.mem_append.mp hu with hu | hu
    · exact ⟨u, List.mem_append_left _ hu, j, hj, fires⟩
    · rcases List.mem_append.mp ((stage.threads_run c.state).mem_iff.mp hu) with hu | hu
      · rcases Stage.of_mem_newcomers hu with ⟨r, -, loops, hw⟩ | ⟨-, closing, hw⟩
        · rw [hw, loops.closing] at hj
          simp only [State.closing, List.mem_append, List.mem_cons, List.not_mem_nil, or_false] at hj
          rcases hj with (rfl | rfl | rfl) | rfl | rfl <;> exact fires.elim
        · rw [hw, closing] at hj
          obtain rfl := List.mem_singleton.mp hj
          exact fires.elim
      · exact ⟨u, List.mem_append_right _ hu, j, hj, fires⟩
  | worked w s t job =>
    obtain ⟨rest, rfl, ht, hw, -, -, others⟩ := st.after_work
    have stays {j : Job} (hj : j ∈ t.work ++ t.closing) (fires : j.MayFire o) : c.MayFire o :=
      ⟨t, List.mem_append_left _ ht, j, hj, fires⟩
    rcases others u hu with ⟨due, rfl⟩ | hu | hu
    · change j ∈ (job.run setup w c.state).next ++ rest ++ t.closing at hj
      rw [List.append_assoc] at hj
      rcases List.mem_append.mp hj with hj | hj
      · rcases Job.mayFire_next hj fires with before | ⟨rfl, found⟩
        · exact .inl (stays (by simp [hw]) before)
        · exact .inr ⟨w, t, rfl, found⟩
      · exact .inl (stays (by rw [hw]; exact List.mem_cons_of_mem _ hj) fires)
    · exact .inl ⟨u, List.mem_append_left _ hu, j, hj, fires⟩
    · obtain ⟨new, hn, watchers⟩ := job.threads_run setup w c.state
      rw [hn] at hu
      rcases List.mem_append.mp hu with hu | hu
      · exact .inl ⟨u, List.mem_append_right _ hu, j, hj, fires⟩
      · obtain ⟨k, due, rfl⟩ := watchers u hu
        obtain rfl : j = .watch k := List.mem_singleton.mp hj
        exact fires.elim
  | shifted =>
    refine .inl ?_
    obtain ⟨-, -, others⟩ := st.after_shift
    rcases others u hu with hu | ⟨t, ht, rfl⟩
    · exact ⟨u, hu, j, hj, fires⟩
    · refine ⟨t, List.mem_append_right _ ht, j, ?_, fires⟩
      -- What a thread does after waiting is what it was at, or its closing work.
      unfold Thread.resume at hj
      split at hj
      · split at hj
        · exact List.mem_append_right _ (by simpa using hj)
        · exact hj
      · exact hj

end DeskScript
