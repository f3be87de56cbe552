import DeskScript.Failure
import DeskScript.Script.Action

/-! Questions about what is on the screen. Later questions may depend on earlier answers. -/

namespace DeskScript

/-- What looking for an element yields: where it is, that it is not there, or a failure. -/
abbrev Sighting := Except Failure (Option Coordinate)

/-- Looks for elements one after the other until there is a result. -/
inductive Inquiry (α : Type) where
  | done (result : α)
  | ask (element : Element) (next : Sighting → Inquiry α)

namespace Inquiry

def bind : Inquiry α → (α → Inquiry β) → Inquiry β
  | .done a, f => f a
  | .ask e next, f => .ask e fun s => (next s).bind f

def map (f : α → β) (q : Inquiry α) : Inquiry β := q.bind fun a => .done (f a)

/-- The result if every element is where `find` says, and what was looked for, in order. -/
def run (find : Element → Sighting) : Inquiry α → α × List (Element × Sighting)
  | .done a => (a, [])
  | .ask e next =>
    let (a, log) := (next (find e)).run find
    (a, (e, find e) :: log)

theorem run_bind (find : Element → Sighting) (q : Inquiry α) (f : α → Inquiry β) :
    (q.bind f).run find =
      (((f (q.run find).1).run find).1, (q.run find).2 ++ ((f (q.run find).1).run find).2) := by
  induction q with
  | done a => simp [bind, run]
  | ask e next ih => simp [bind, run, ih]

theorem bind_bind (q : Inquiry α) (f : α → Inquiry β) (g : β → Inquiry γ) :
    (q.bind f).bind g = q.bind fun a => (f a).bind g := by
  induction q with
  | done a => rfl
  | ask e next ih => simp [bind, ih]

end Inquiry

namespace Condition

mutual

/-- The truth of a condition. Of several conditions only as many are looked at as decide, and a
failure decides too. -/
def inquiry : Condition → Inquiry (Except Failure Bool)
  | .present e => .ask e fun s => .done (s.map Option.isSome)
  | .absent e => .ask e fun s => .done (s.map Option.isNone)
  | .all cs => inquiryAll cs
  | .any cs => inquiryAny cs
  | .not c => (inquiry c).map fun truth => truth.map (!·)

def inquiryAll : List Condition → Inquiry (Except Failure Bool)
  | [] => .done (.ok true)
  | c :: cs => (inquiry c).bind fun
    | .ok true => inquiryAll cs
    | truth => .done truth

def inquiryAny : List Condition → Inquiry (Except Failure Bool)
  | [] => .done (.ok false)
  | c :: cs => (inquiry c).bind fun
    | .ok false => inquiryAny cs
    | truth => .done truth

end

end Condition

/-- Where an action goes: the place of its first target, and of its second if it has two. -/
structure Aim where
  place : Option Coordinate := none
  finish : Option Coordinate := none
deriving DecidableEq, Inhabited

def Sighting.place? : Sighting → Option Coordinate
  | .ok place => place
  | .error _ => none

/-- Looks for the targets of an action. A failure is as good as not finding the target. -/
def Action.aim (a : Action) : Inquiry Aim :=
  match a.targets with
  | [] => .done {}
  | [e] => .ask e fun s => .done { place := Sighting.place? s }
  | e₁ :: e₂ :: _ =>
    .ask e₁ fun s₁ => .ask e₂ fun s₂ =>
      .done { place := Sighting.place? s₁, finish := Sighting.place? s₂ }

end DeskScript
