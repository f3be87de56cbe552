import DeskScript.Proofs.Lanes

/-! Threads that serve a run, threads in line, and threads whose run is over. -/

namespace DeskScript

/-! ### Changes that spare the runs -/

/-- The thread that polls the observers under the token `k`. -/
def Thread.watcher (k : Token) (due : Nat) : Thread := ⟨.watcher, some k, [.watch k], [], due⟩

/-- The change leaves the run and the tokens as they are; at most polling begins. -/
structure State.Spares (s s' : State) : Prop where
  phase : s'.phase = s.phase
  run : s'.run = s.run
  cancelled : s'.cancelled = s.cancelled
  issued : s.issued ≤ s'.issued
  polling : (s'.polling = s.polling ∧ s'.threads = s.threads) ∨
    (s.polling = none ∧ s'.polling = some s.issued ∧ s.issued < s'.issued ∧
      ∃ due, s'.threads = s.threads ++ [Thread.watcher s.issued due])

theorem State.Kept.spares {s s' : State} {new : List Note} (h : s.Kept s' new) : s.Spares s' := by
  obtain ⟨step, n, rfl⟩ := h
  exact ⟨rfl, rfl, rfl, Nat.le_refl _, .inl ⟨rfl, rfl⟩⟩

theorem State.spares_enlist {s : State} (h : ∀ p, s.polling = some p → s.isCancelled p = false)
    (setup : Setup) (o : Observer) (priority : Int32) : s.Spares (s.enlist setup o priority) := by
  unfold enlist
  dsimp only
  split
  · exact ⟨rfl, rfl, rfl, Nat.le_refl _, .inl ⟨rfl, rfl⟩⟩
  · rename_i hp
    have none : s.polling = none := by
      cases hq : s.polling with
      | none => rfl
      | some p =>
        refine absurd ?_ hp
        simpa [isPolling, hq, isCancelled] using h p hq
    unfold startPolling
    split
    · exact ⟨rfl, rfl, rfl, Nat.le_succ _, .inr ⟨none, rfl, Nat.lt_succ_self _, s.clock, rfl⟩⟩
    · exact ⟨rfl, rfl, rfl, Nat.le_refl _, .inl ⟨none.symm, rfl⟩⟩

/-- The change leaves the run and the threads as they are, and ends polling. -/
structure State.Hushes (s s' : State) : Prop where
  run : s'.run = s.run
  threads : s'.threads = s.threads
  unpolled : s'.polling = none
  cancelled : ∀ k, s.isCancelled k = true → s'.isCancelled k = true
  polling : ∀ k, s.polling = some k → s'.isCancelled k = true

theorem State.hushes_clear (s : State) : s.Hushes s.clear where
  run := s.clear_run
  threads := s.clear_threads
  unpolled := s.clear_polling
  cancelled k hk := by rw [isCancelled_clear, hk, Bool.or_true]
  polling k hk := by simp [isCancelled_clear, hk]

theorem State.Kept.hushes {s s' : State} {new : List Note} (h : s.Kept s' new)
    (hn : s.polling = none) : s.Hushes s' := by
  obtain ⟨step, n, rfl⟩ := h
  exact ⟨rfl, rfl, hn, fun k hk => hk, by simp [hn]⟩

theorem State.hushes_halt (s : State) : s.Hushes s.halt.2.clear := by
  have threads : s.halt.2.threads = s.threads := by unfold halt; split <;> rfl
  have polling : s.halt.2.polling = s.polling := by unfold halt; split <;> rfl
  refine ⟨(clear_run _).trans s.halt_run, (clear_threads _).trans threads, clear_polling _, ?_, ?_⟩
  · intro k hk
    have more : s.halt.2.isCancelled k = true := by
      unfold halt
      split
      · simp [isCancelled, cancel] at hk ⊢
        exact .inr hk
      · exact hk
    rw [isCancelled_clear, more, Bool.or_true]
  · intro k hk
    simp [isCancelled_clear, polling, hk]

theorem State.hushes_stop (s : State) : s.Hushes s.stop := by
  unfold stop
  dsimp only
  split
  · obtain ⟨run, threads, unpolled, cancelled, polling⟩ := s.hushes_halt
    exact ⟨run, threads, unpolled, cancelled, polling⟩
  · exact s.hushes_halt

/-! ### Threads -/

def Thread.isEntering (t : Thread) : Bool := t.work.head?.any Job.isEnter

/-- The thread does the work of a lane under the token `k`. -/
structure Thread.Serves (t : Thread) (lane : Lane) (k : Token) : Prop where
  token : t.token = some k
  role : t.role = if lane.foreground then .foreground else .watcher
  closing : t.closing = if lane.foreground then State.closing lane.run else []
  work : ∃ ws, t.work = ws ++ t.closing ∧ lane.Serves k ws

/-- The token `k` is the one that the current run has for the lane. -/
structure State.Grants (s : State) (lane : Lane) (k : Token) : Prop where
  run : s.run = some lane.run
  own : if lane.foreground then k = lane.run.token else s.polling = some k

/-- The thread does the work of a lane that goes on. -/
def Thread.Alive (s : State) (t : Thread) : Prop :=
  ∃ lane k, t.Serves lane k ∧ s.Grants lane k ∧ s.isCancelled lane.run.token = false ∧
    s.isCancelled k = false

/-- What the thread does when it is dropped: the loop of the run winds it up. -/
inductive Thread.Closes (r : Run) (t : Thread) : Prop
  | loop : t.role = .foreground → t.token = some r.token → t.closing = State.closing r → Closes r t
  | watcher : t.role = .watcher → t.closing = [] → Closes r t

/-- The thread may be in line: when its token is not cancelled, it serves the current run. -/
structure Thread.Fits (s : State) (t : Thread) : Prop where
  token : t.token ≠ none
  closes : ∃ r, t.Closes r ∧ (t.role = .foreground → s.run = some r)
  serves : ∀ k, t.token = some k → s.isCancelled k = false →
    ∃ lane, t.Serves lane k ∧ s.Grants lane k ∧ t.isEntering = false

/-- Whether the work shows nothing and leaves nothing once the run is over. -/
def Job.IsQuiet (r : Run) (token : Option Token) : Job → Prop
  | .rest _ | .clear => True
  | .level lane _ => lane.run = r
  | .endIteration r' => r' = r
  | .relax k => token = some k
  | .tell e => e.isOfRun = true
  | _ => False

theorem Job.isQuiet_of_trails {lane : Lane} {token : Option Token} {job : Job} (own : job.IsOf lane)
    (ht : job.trails = true) : job.IsQuiet lane.run token := by
  cases job with
  | rest ms => trivial
  | level l steps => exact congrArg Lane.run own
  | _ => cases ht

/-- The work that is left for a thread of the run once the run is over. -/
structure Thread.Over (s : State) (r : Run) (t : Thread) : Prop where
  run : s.run = some r
  cancelled : s.isCancelled r.token = true
  work : ∃ ws, t.work = ws ++ (if t.role = .foreground then [.settle r] else []) ∧
    (∀ job ∈ ws, job.IsQuiet r t.token) ∧ (t.token = none → ∀ job ∈ ws, job = .clear)
  token : ∀ k, t.token = some k → s.isCancelled k = true ∨ s.polling = some k
  closes : t.token ≠ none → t.Closes r

/-! ### What changes leave as it was -/

variable {s s' : State} {t : Thread} {lane : Lane} {k : Token} {r : Run}

theorem Thread.Closes.congr {t' : Thread} (h : t.Closes r) (role : t'.role = t.role)
    (token : t'.token = t.token) (closing : t'.closing = t.closing) : t'.Closes r := by
  cases h with
  | loop h₁ h₂ h₃ => exact .loop (role.trans h₁) (token.trans h₂) (closing.trans h₃)
  | watcher h₁ h₂ => exact .watcher (role.trans h₁) (closing.trans h₂)

theorem State.Grants.mono (h : s.Grants lane k) (run : s'.run = s.run)
    (polling : s.polling = some k → s'.polling = some k) : s'.Grants lane k := by
  refine ⟨run.trans h.run, ?_⟩
  have own := h.own
  split
  · rename_i hf
    rwa [if_pos hf] at own
  · rename_i hf
    rw [if_neg hf] at own
    exact polling own

theorem State.Grants.lt (h : s.Grants lane k) (o : s.Orderly) : k < s.issued := by
  have own := h.own
  split at own
  · rw [own]
    exact o.run_lt _ h.run
  · exact o.polling_lt _ own

/-- A thread in line still fits when more tokens are cancelled, also that of the polling. -/
theorem Thread.Fits.mono (h : t.Fits s) (run : s'.run = s.run)
    (cancelled : ∀ k, s.isCancelled k = true → s'.isCancelled k = true)
    (polling : ∀ k, s.polling = some k → s'.polling = some k ∨ s'.isCancelled k = true) :
    t.Fits s' := by
  refine ⟨h.token, by simpa only [run] using h.closes, ?_⟩
  intro k hk live
  have live' : s.isCancelled k = false := by
    rw [← Bool.not_eq_true]
    intro hc
    rw [cancelled k hc] at live
    cases live
  obtain ⟨lane, serves, grants, quiet⟩ := h.serves k hk live'
  refine ⟨lane, serves, grants.mono run ?_, quiet⟩
  intro hp
  refine (polling k hp).resolve_right ?_
  rw [live]
  exact Bool.false_ne_true

/-- Only run, tokens and polling count. -/
theorem Thread.Fits.congr (h : t.Fits s) (run : s'.run = s.run) (cancelled : s'.cancelled = s.cancelled)
    (polling : s'.polling = s.polling) : t.Fits s' := by
  refine h.mono run ?_ ?_
  · intro k hk
    exact (State.isCancelled_congr cancelled k).trans hk
  · intro k hk
    exact .inl (polling.trans hk)

theorem Thread.Fits.spares (h : t.Fits s) (hs : s.Spares s') : t.Fits s' := by
  refine h.mono hs.run ?_ ?_
  · intro k hk
    rwa [State.isCancelled_congr hs.cancelled]
  · intro k hk
    rcases hs.polling with ⟨hp, -⟩ | ⟨hn, -⟩
    · exact .inl (hp.trans hk)
    · rw [hn] at hk
      cases hk

theorem Thread.Fits.hushes (h : t.Fits s) (hs : s.Hushes s') : t.Fits s' :=
  h.mono hs.run hs.cancelled fun k hk => .inr (hs.polling k hk)

/-- A thread that begins to poll fits, whatever it polls for. -/
theorem Thread.fits_watcher {due : Nat} (hr : s.run = some r) (hp : s.polling = some k) :
    (Thread.watcher k due).Fits s where
  token := by simp [watcher]
  closes := ⟨r, .watcher rfl rfl, by simp [watcher]⟩
  serves k' hk _ := by
    cases hk
    refine ⟨⟨r, false⟩, ⟨rfl, rfl, rfl, [.watch k], rfl, ?_⟩, ⟨hr, hp⟩, rfl⟩
    exact @Lane.Serves.waiting ⟨r, false⟩ k [] (by simp)

/-- The loop of a run that was just opened fits. -/
theorem Thread.fits_loop {due : Nat} (hr : s.run = some r) :
    (⟨.foreground, some r.token, .iterate r :: State.closing r, State.closing r, due⟩ :
      Thread).Fits s where
  token := by simp
  closes := ⟨r, .loop rfl rfl rfl, fun _ => hr⟩
  serves k hk _ := by
    cases hk
    refine ⟨⟨r, true⟩, ⟨rfl, rfl, rfl, [.iterate r], rfl, ?_⟩, ⟨hr, rfl⟩, rfl⟩
    exact @Lane.Serves.waiting ⟨r, true⟩ r.token [] (by simp)

/-! ### What a thread does -/

namespace Thread

variable {setup : Setup} {w : World} {job : Job} {rest : Work}

/-- The work at hand is that of the lane. -/
theorem Serves.work_cons (h : t.Serves lane k) (hw : t.work = job :: rest) :
    ∃ ws, rest = ws ++ t.closing ∧ lane.Serves k (job :: ws) := by
  obtain ⟨ws, hws, hs⟩ := h.work
  cases ws with
  | nil => exact absurd rfl hs.ne_nil
  | cons job' ws =>
    rw [hw] at hws
    cases hws
    exact ⟨ws, rfl, hs⟩

theorem Serves.closes (h : t.Serves lane k) (grants : s.Grants lane k) : t.Closes lane.run := by
  have own := grants.own
  have role := h.role
  have closing := h.closing
  cases hf : lane.foreground
  · rw [hf] at role closing
    exact .watcher role closing
  · rw [hf] at role closing own
    exact .loop role (h.token.trans (congrArg some own)) closing

theorem Alive.ne_nil (h : t.Alive s) : t.work ≠ [] := by
  obtain ⟨lane, k, hs, -⟩ := h
  obtain ⟨ws, hw, hl⟩ := hs.work
  rw [hw]
  simp [hl.ne_nil]

/-- A lane that goes on still does after work that does not stop the run. -/
theorem Alive.advance (h : t.Alive s) (hw : t.work = job :: rest) (hh : job.isHalt = false)
    (hs : s.Spares (job.run setup w s).state) :
    (t.advance (job.run setup w s) rest).Alive (job.run setup w s).state := by
  obtain ⟨lane, k, serves, grants, live, hk⟩ := h
  obtain ⟨ws, rfl, hl⟩ := serves.work_cons hw
  refine ⟨lane, k, ⟨serves.token, serves.role, serves.closing, ?_⟩, ?_, ?_, ?_⟩
  · exact ⟨_, (List.append_assoc _ _ _).symm, hl.run hh setup w grants.run live hk⟩
  · refine grants.mono hs.run ?_
    intro hp
    rcases hs.polling with ⟨hq, -⟩ | ⟨hn, -⟩
    · exact hq.trans hp
    · rw [hn] at hp
      cases hp
  · rwa [State.isCancelled_congr hs.cancelled]
  · rwa [State.isCancelled_congr hs.cancelled]

/-- A lane is about to enter a step only right after the engine was seen not to be paused. -/
theorem Alive.entering (h : t.Alive s) (hw : t.work = job :: rest)
    (he : (t.advance (job.run setup w s) rest).isEntering = true) :
    s.phase ≠ .paused ∧ (job.run setup w s).pause = none ∧ job.asks = false := by
  obtain ⟨lane, k, serves, -⟩ := h
  obtain ⟨ws, rfl, hl⟩ := serves.work_cons hw
  apply Job.enter_of_run
  cases hn : (job.run setup w s).next with
  | cons job' next =>
    have head : job'.isEnter = true := by simpa [isEntering, Thread.advance, hn] using he
    simp [head]
  | nil =>
    exfalso
    have sudden := hl.sudden
    have closing : ∀ j ∈ t.closing, j.isEnter = false := by
      rw [serves.closing]
      split
      · simp [State.closing, Job.isEnter]
      · simp
    have all : ∀ j ∈ ws ++ t.closing, j.isEnter = false := by
      intro j hj
      exact (List.mem_append.mp hj).elim (sudden j) (closing j)
    cases hl : ws ++ t.closing with
    | nil => simp [isEntering, Thread.advance, hn, hl] at he
    | cons j js =>
      have := all j (by simp [hl])
      simp [isEntering, Thread.advance, hn, hl, this] at he

/-- The work of a lane that does not stop the run spares it. -/
theorem Alive.spares (h : t.Alive s) (hw : t.work = job :: rest) (hh : job.isHalt = false)
    (live : ∀ p, s.polling = some p → s.isCancelled p = false) :
    s.Spares (job.run setup w s).state := by
  by_cases hd : job.isDecisive = true
  · obtain ⟨lane, k, serves, -⟩ := h
    obtain ⟨ws, rfl, hl⟩ := serves.work_cons hw
    rcases hl.decisive hd with rfl | ⟨o, rfl⟩
    · cases hh
    · exact State.spares_enlist live setup o _
  · exact (job.kept_run setup w s (by simpa using hd)).spares

/-- A lane that stops its run has only quiet work left. -/
theorem Alive.halt (h : t.Alive s) (hr : s.run = some r) (hw : t.work = .halt :: rest) :
    (t.advance (Job.halt.run setup w s) rest).Over s.halt.2 r := by
  obtain ⟨lane, k, serves, grants, live, hk⟩ := h
  obtain ⟨ws, rfl, hl⟩ := serves.work_cons hw
  obtain ⟨ws, rfl, own, trails⟩ := hl.halt
  obtain rfl : lane.run = r := Option.some.inj (grants.run.symm.trans hr)
  have hs : s.halt.2 = { s.cancel lane.run.token with phase := .stopped } := by
    simp only [State.halt, hr]
  have cancelled : s.halt.2.isCancelled lane.run.token = true := by
    rw [hs]
    simp [State.isCancelled, State.cancel]
  have quiet : ∀ job ∈ ws, job.IsQuiet lane.run t.token :=
    fun job hj => Job.isQuiet_of_trails (own job hj) (List.all_eq_true.mp trails job hj)
  have finish : (lane.finish k).IsQuiet lane.run t.token := by
    unfold Lane.finish
    split
    · rfl
    · exact serves.token
  have tells : ∀ job ∈ if s.halt.1 then [Job.tell .scriptStopped] else [],
      job.IsQuiet lane.run t.token := by
    intro job hj
    split at hj
    · rw [List.mem_singleton.mp hj]
      rfl
    · cases hj
  have role := serves.role
  have closing := serves.closing
  refine ⟨(State.halt_run s).trans hr, cancelled, ?_, ?_, ?_⟩
  · refine ⟨.clear :: (if s.halt.1 then [.tell .scriptStopped] else []) ++ ws ++ [lane.finish k] ++
      (if lane.foreground then [.clear] else []), ?_, ?_, ?_⟩
    · cases hf : lane.foreground <;>
        simp [Thread.advance, Job.run, closing, role, hf, State.closing]
    · intro job hj
      simp only [List.cons_append, List.mem_cons, List.mem_append, List.not_mem_nil, or_false] at hj
      rcases hj with rfl | ((hj | hj) | rfl) | hj
      · trivial
      · exact tells job hj
      · exact quiet job hj
      · exact finish
      · split at hj
        · rw [List.mem_singleton.mp hj]
          trivial
        · cases hj
    · intro hn
      exact absurd (serves.token.symm.trans hn) (by simp)
  · intro k' hk'
    obtain rfl : k = k' := Option.some.inj (serves.token.symm.trans hk')
    have own := grants.own
    split at own
    · rw [own]
      exact .inl cancelled
    · refine .inr ?_
      rw [hs]
      exact own
  · intro _
    exact (serves.closes grants).congr rfl rfl rfl

/-- What is left once the run is over ends with the run's being settled, where the loop does it. -/
theorem Over.cases_cons (h : t.Over s r) (hw : t.work = job :: rest) :
    (job = .settle r ∧ rest = [] ∧ t.role = .foreground) ∨
    (∃ ws, rest = ws ++ (if t.role = .foreground then [.settle r] else []) ∧
      job.IsQuiet r t.token ∧ (∀ j ∈ ws, j.IsQuiet r t.token) ∧
      (t.token = none → job = .clear ∧ ∀ j ∈ ws, j = .clear)) := by
  obtain ⟨ws, hws, quiet, free⟩ := h.work
  cases ws with
  | nil =>
    rw [hw] at hws
    split at hws <;> cases hws
    rename_i hf
    exact .inl ⟨rfl, rfl, hf⟩
  | cons j ws =>
    rw [hw] at hws
    cases hws
    exact .inr ⟨ws, rfl, quiet _ (by simp), fun j hj => quiet j (by simp [hj]),
      fun hn => ⟨free hn _ (by simp), fun j hj => free hn j (by simp [hj])⟩⟩

/-- Quiet work leaves nothing to be done, and at most ends polling. -/
theorem quiet_run (hq : job.IsQuiet r t.token) (hc : s.isCancelled r.token = true)
    (hk : ∀ k, t.token = some k → job = .relax k → s.isCancelled k = true)
    (polled : s.polling = none ∨ job = .clear) :
    (job.run setup w s).next = [] ∧ s.Hushes (job.run setup w s).state := by
  by_cases hj : job = .clear
  · rw [hj]
    exact ⟨rfl, s.hushes_clear⟩
  have quiet {s' : State} {new : List Note} (kept : s.Kept s' new) : s.Hushes s' :=
    kept.hushes (polled.resolve_right hj)
  cases job with
  | clear => exact absurd rfl hj
  | rest ms => exact ⟨rfl, quiet (.refl s)⟩
  | tell e => exact ⟨rfl, quiet (s.kept_note _)⟩
  | level lane steps =>
    obtain rfl : lane.run = r := hq
    cases steps with
    | nil => exact ⟨rfl, quiet (.refl s)⟩
    | cons step steps =>
      simp only [Job.run, Job.guarded, hc, if_true]
      exact ⟨trivial, quiet (.refl s)⟩
  | endIteration r' =>
    obtain rfl : r' = r := hq
    simp only [Job.run, Job.guarded, hc, if_true]
    exact ⟨trivial, quiet (.refl s)⟩
  | relax k =>
    simp only [Job.run, Job.guarded, hk k hq rfl, if_true]
    exact ⟨trivial, quiet (.refl s)⟩
  | _ => exact absurd hq id

/-- What is left once the run is over is still only that after quiet work. -/
theorem Over.advance (h : t.Over s r) (hw : t.work = job :: rest) (hj : ∀ r', job ≠ .settle r')
    (polled : s.polling = none ∨ job = .clear) :
    s.Hushes (job.run setup w s).state ∧
      (t.advance (job.run setup w s) rest).Over (job.run setup w s).state r := by
  rcases h.cases_cons hw with ⟨rfl, -⟩ | ⟨ws, rfl, hq, quiet, free⟩
  · exact absurd rfl (hj r)
  have relaxed : ∀ k, t.token = some k → job = .relax k → s.isCancelled k = true := by
    intro k hk hr
    refine (h.token k hk).resolve_right ?_
    rcases polled with hn | rfl
    · simp [hn]
    · cases hr
  obtain ⟨next, hushes⟩ : _ ∧ s.Hushes (job.run setup w s).state :=
    quiet_run hq h.cancelled relaxed polled
  refine ⟨hushes, hushes.run.trans h.run, hushes.cancelled _ h.cancelled, ?_, ?_, ?_⟩
  · refine ⟨ws, ?_, quiet, fun hn => (free hn).2⟩
    simp [Thread.advance, next]
  · exact fun k hk => .inl ((h.token k hk).elim (hushes.cancelled k) (hushes.polling k))
  · exact fun hn => (h.closes hn).congr rfl rfl rfl

/-- A lane that goes on fits in line, unless it is about to enter a step. -/
theorem Alive.fits (h : t.Alive s) (he : t.isEntering = false) (due : Nat) :
    ({ t with due } : Thread).Fits s := by
  obtain ⟨lane, k, serves, grants, -⟩ := h
  refine ⟨?_, ⟨lane.run, (serves.closes grants).congr rfl rfl rfl, fun _ => grants.run⟩, ?_⟩
  · simp [serves.token]
  · intro k' hk' _
    obtain rfl : k = k' := Option.some.inj (serves.token.symm.trans hk')
    exact ⟨lane, ⟨serves.token, serves.role, serves.closing, serves.work⟩, grants, he⟩

/-- A thread whose run is over fits in line, to be dropped in its next turn. -/
theorem Over.fits (h : t.Over s r) (ht : t.token ≠ none) (hp : s.polling = none) (due : Nat) :
    ({ t with due } : Thread).Fits s where
  token := ht
  closes := ⟨r, (h.closes ht).congr rfl rfl rfl, fun _ => h.run⟩
  serves k hk live := by
    rcases h.token k hk with hc | hq
    · rw [hc] at live
      cases live
    · rw [hp] at hq
      cases hq

/-- When it has its turn, a thread in line goes on for the run that it serves, or drops its work. -/
theorem Fits.resume (h : t.Fits s)
    (live : ∀ p r, s.polling = some p → s.run = some r → s.isCancelled r.token = false) :
    (t.resume s).work = [] ∨
      ((t.resume s).Alive s ∧ (t.resume s).isEntering = false) ∨ ∃ r, (t.resume s).Over s r := by
  obtain ⟨k, hk⟩ : ∃ k, t.token = some k := Option.ne_none_iff_exists'.mp h.token
  cases hc : s.isCancelled k with
  | false =>
    have same : t.resume s = t := by simp [Thread.resume, hk, hc]
    obtain ⟨lane, serves, grants, quiet⟩ := h.serves k hk hc
    rw [same]
    refine .inr (.inl ⟨⟨lane, k, serves, grants, ?_, hc⟩, quiet⟩)
    have own := grants.own
    split at own
    · rw [← own]
      exact hc
    · exact live k lane.run own grants.run
  | true =>
    have dropped : t.resume s = { t with work := t.closing, token := none } := by
      simp [Thread.resume, hk, hc]
    rw [dropped]
    obtain ⟨r, closes, current⟩ := h.closes
    cases closes with
    | watcher hr hcl => exact .inl hcl
    | loop hr ht hcl =>
      obtain rfl : k = r.token := Option.some.inj (hk.symm.trans ht)
      refine .inr (.inr ⟨r, current hr, hc, ⟨[.clear], ?_, ?_, ?_⟩, ?_, ?_⟩)
      · simp [hcl, hr, State.closing]
      · simp [Job.IsQuiet]
      · simp
      · simp
      · simp

end Thread

end DeskScript
