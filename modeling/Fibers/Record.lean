import Fibers.Level
import Fibers.Violation
import Fibers.Word

/-! Log records.

A record is what happened; its level and its text follow from that. -/
namespace Fibers

inductive Record
  /-- A request for a stack was below the least size. -/
  | raised (requested size : Nat)
  | created (fiber size : Nat)
  | createdRoot (fiber : Nat)
  | resetFiber (fiber : Nat)
  /-- A fiber is resumed from elsewhere than its anchor. -/
  | foreignAnchor (fiber caller anchor : Nat)
  | resuming (fiber : Nat)
  | yielding (fiber : Nat)
  /-- A callback ended in a panic. -/
  | panicked (fiber : Nat) (report : String)
  | destroying (fiber : Nat)
  | releasedStack (size block : Nat)
  | releasedStackOf (fiber : Nat)
  /-- The environment holds no valid default stack size, so the built-in one is used. -/
  | fallback (error : Error) (size : Nat)
  | installed (size : Nat)
  | violated (violation : Violation)
  deriving DecidableEq, Repr

namespace Record

def level : Record → Level
  | panicked .. | violated .. => .error
  | fallback .. => .warn
  | resetFiber .. | resuming .. | yielding .. | releasedStack .. => .trace
  | _ => .debug

def text : Record → String
  | raised requested size => s!"raised {requested} byte stack request to {size}"
  | created f size => s!"created fiber {f} with a {size} byte stack"
  | createdRoot f => s!"created root fiber {f}"
  | resetFiber f => s!"reset fiber {f}"
  | foreignAnchor f caller anchor =>
    s!"fiber {f} resumed from fiber {caller} instead of its anchor {anchor}"
  | resuming f => s!"resuming fiber {f}"
  | yielding f => s!"fiber {f} yielding"
  | panicked f report => s!"fiber {f} panicked: {report}"
  | destroying f => s!"destroying fiber {f}"
  | releasedStack size block => s!"released {size} byte stack at {Word.hex block}"
  | releasedStackOf f => s!"released stack of fiber {f}"
  | fallback error size => s!"{error.message}, using {size}"
  | installed size => s!"default fiber stack size set to {size}"
  | violated v => s!"fiber invariant violated: {v.message}"

end Record
end Fibers
