import DeskScript.Engine.Effort

/-! Threads of work take turns. Each goes on until it waits; time passes only while all wait. -/

namespace DeskScript

namespace Thread

/-- The thread as it goes on after waiting: when its token is cancelled it drops its work. -/
def resume (s : State) (t : Thread) : Thread :=
  match t.token with
  | some token => if s.isCancelled token then { t with work := t.closing, token := none } else t
  | none => t

/-- The thread with its first piece of work done, and `work` to be done after that. -/
def advance (t : Thread) (o : Outcome) (work : Work) : Thread := { t with work := o.next ++ work }

/-- Whether the thread may go on: its time has come, or its token is cancelled. -/
def isReady (s : State) (t : Thread) : Bool := t.due ≤ s.clock || t.token.any s.isCancelled

end Thread

namespace State

/-- With a thread in line. It comes last, but a visitor comes first. -/
def enqueue (s : State) (t : Thread) : State :=
  { s with threads := if t.role = .visitor then t :: s.threads else s.threads ++ [t] }

/-- Goes on with a thread until it waits or has nothing left to do. A thread that waits gets in
line. -/
def goOn (setup : Setup) (w : World) (t : Thread) (s : State) : State :=
  match _hw : t.work with
  | [] => s
  | job :: work =>
    match _hp : (job.run setup w s).pause with
    | none => goOn setup w (t.advance (job.run setup w s) work) (job.run setup w s).state
    | some ms =>
      (job.run setup w s).state.enqueue
        { t.advance (job.run setup w s) work with due := s.clock + ms.toNat }
termination_by (Work.looks t.work, Work.effort w t.work)
decreasing_by
  rw [_hw, Prod.lex_def]
  exact Work.effort_run work _hp

/-- The first thread that may go on, and the others. -/
def takeReady (s : State) : Option (Thread × List Thread) :=
  match s.threads.span fun t => !t.isReady s with
  | (waiting, t :: rest) => some (t, waiting ++ rest)
  | (_, []) => none

/-- The time at which the next thread is to go on, if that is before `limit`. -/
def nextDue (s : State) (limit : Nat) : Option Nat :=
  ((s.threads.map Thread.due).filter (· < limit)).min?

/-- A bound for the turns in one stretch of time, far out of reach. -/
def stretch : Nat := 1 <<< 40

/-- Lets threads take turns until `finished`, or until all of them wait for the time `limit` or a
later one. -/
def takeTurns (setup : Setup) (w : World) (finished : State → Bool) (limit : Nat) :
    (fuel : Nat) → State → State
  | 0, s => s
  | fuel + 1, s =>
    if finished s then s
    else match s.takeReady with
      | some (t, threads) =>
        takeTurns setup w finished limit fuel
          (goOn setup w (t.resume s) { s with threads })
      | none =>
        match s.nextDue limit with
        | some due => takeTurns setup w finished limit fuel { s with clock := max s.clock due }
        | none => s

/-- Lets threads take turns until all of them wait, while no time passes. -/
def awaitAll (setup : Setup) (w : World) (s : State) : State :=
  takeTurns setup w (fun _ => false) s.clock stretch s

/-- Lets the time pass for `ms` milliseconds. Threads that are to go on at the end of it have yet to
do so, and where no time passes none has its turn. -/
def advance (setup : Setup) (w : World) (ms : Nat) (s : State) : State :=
  if ms = 0 then s
  else
    let limit := s.clock + ms
    { takeTurns setup w (fun _ => false) limit stretch s with clock := limit }

def awaitVisitors (setup : Setup) (w : World) (s : State) : State :=
  let finished (s : State) : Bool := s.threads.all fun t => t.role ≠ .visitor
  takeTurns setup w finished (s.clock + 1 <<< 64) stretch s

/-- Lets threads take turns until the engine is idle, or all of them wait for `ms` milliseconds from
now or longer. -/
def awaitIdle (setup : Setup) (w : World) (ms : Nat) (s : State) : State :=
  takeTurns setup w (·.phase = .idle) (s.clock + ms) stretch s

end State

end DeskScript
