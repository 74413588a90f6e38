import JsonShape.Incident
import JsonShape.Terminal.Highlight

/-!
# Outlets

An outlet is a stream that texts are written to, standard output or standard error. It takes one
text after the other until it refuses one, for which its encoding has no code, or which the
operating system does not let through. What an outlet has taken when it refuses a text is a
beginning of what it was given; texts that it seemed to have taken before can be lost with the one
that is refused.
-/

namespace JsonShape

open Highlight (Shown uncolored)

namespace Highlight.Shown

/-- A text and one behind it. -/
def append (x y : Shown) : Shown :=
  ⟨x.text ++ y.text, x.colored || y.colored⟩

/-- The first characters of a text. -/
def cut (x : Shown) (n : Nat) : Shown :=
  ⟨String.ofList (x.text.toList.take n), x.colored && n != 0⟩

end Highlight.Shown

/-- Why an outlet refuses a text. -/
inductive OutletFault where
  | encoding (message : String)
  | os (failure : OsFailure)
deriving Inhabited

/-- The fault in words. -/
def OutletFault.text : OutletFault → String
  | .encoding message => message
  | .os failure => failure.text

/-- A text that is refused : how many characters the outlet has taken in all, and why not more. -/
structure Refusal where
  kept : Nat
  fault : OutletFault
deriving Inhabited

/-- Which texts are refused, after what was taken. -/
abbrev Refusals := Shown → Shown → Option Refusal

/-- The two outlets of a run : standard output and standard error. -/
inductive Channel where
  | output
  | errors
deriving DecidableEq, Repr, Inhabited

/-- What a stream has taken, and what it refuses. -/
structure Outlet where
  taken : Shown := uncolored ""
  refuses : Refusals := fun _ _ => none

namespace Outlet

/-- The outlet after a text, and why it refuses the text if it does. -/
def write (o : Outlet) (x : Shown) : Outlet × Option OutletFault :=
  match o.refuses o.taken x with
  | none => ({ o with taken := o.taken.append x }, none)
  | some r => ({ o with taken := (o.taken.append x).cut r.kept }, some r.fault)

end Outlet

end JsonShape
