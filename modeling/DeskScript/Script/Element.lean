import DeskScript.Decimal.Style

/-! Elements of the screen, and conditions on which of them can be seen. -/

namespace DeskScript

structure Coordinate where
  x : Int32
  y : Int32
deriving DecidableEq, Inhabited

def Coordinate.text (p : Coordinate) : String := s!"({p.x}, {p.y})"

/-- A picture to look for, as its file's content in base 64, and how sure a find has to be. -/
structure Pattern where
  data : String
  threshold : Option Float
deriving DecidableEq, Inhabited

def usualThreshold : Float := 0.7

/-- Something on the screen: a fixed place, or what a picture shows. -/
inductive Element where
  | position (point : Coordinate)
  | picture (pattern : Pattern)
deriving DecidableEq, Inhabited

namespace Element

def threshold? : Element → Option Float
  | .position _ => none
  | .picture p => p.threshold

/-- With the threshold `t` where a picture has none. -/
def withThreshold (t : Float) : Element → Element
  | .position p => .position p
  | .picture p => .picture { p with threshold := some (p.threshold.getD t) }

/-- Whether no threshold is missing. -/
def hasThreshold : Element → Bool
  | .position _ => true
  | .picture p => p.threshold.isSome

/-- The short name of the element. It says nothing of thresholds. -/
def name : Element → String
  | .position p => s!"xy:{p.x},{p.y}"
  | .picture p => s!"img:{p.data}"

def fullName (e : Element) : String :=
  match e.threshold? with
  | some t => s!"{e.name}@{Decimal.textOfFloat .plain t}"
  | none => e.name

theorem withThreshold_withThreshold (s t : Float) (e : Element) :
    (e.withThreshold s).withThreshold t = e.withThreshold s := by
  cases e <;> simp [withThreshold]

theorem hasThreshold_withThreshold (t : Float) (e : Element) :
    (e.withThreshold t).hasThreshold = true := by
  cases e <;> simp [withThreshold, hasThreshold]

end Element

inductive Condition where
  | present (element : Element)
  | absent (element : Element)
  | all (conditions : List Condition)
  | any (conditions : List Condition)
  | not (condition : Condition)
deriving Inhabited

namespace Condition

mutual

def elements : Condition → List Element
  | .present e | .absent e => [e]
  | .all cs | .any cs => elementsOfList cs
  | .not c => elements c

def elementsOfList : List Condition → List Element
  | [] => []
  | c :: cs => elements c ++ elementsOfList cs

end

mutual

/-- The condition with every element replaced by its image under `f`. -/
def map (f : Element → Element) : Condition → Condition
  | .present e => .present (f e)
  | .absent e => .absent (f e)
  | .all cs => .all (mapList f cs)
  | .any cs => .any (mapList f cs)
  | .not c => .not (map f c)

def mapList (f : Element → Element) : List Condition → List Condition
  | [] => []
  | c :: cs => map f c :: mapList f cs

end

end Condition

end DeskScript
