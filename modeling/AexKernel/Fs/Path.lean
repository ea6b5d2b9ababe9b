import Mathlib.Algebra.Ring.Nat
import Mathlib.Data.List.Basic

/- Paths (`fs.h`): the macros `path_count_segments` and `path_walk`. A string is
   the list of its bytes before the terminating `NUL`. -/
namespace Aex.Fs

/-- The bytes of a string before its `NUL`. -/
abbrev CStr := List Nat

/-- A string literal. -/
def cstr (s : String) : CStr := s.toList.map Char.toNat

/-- `'/'`. -/
def slash : Nat := '/'.toNat

/-- An absolute path. -/
structure AbsPath where
  bytes : CStr
  nulFree : ∀ b ∈ bytes, b ≠ 0
  absolute : bytes.head? = some slash
  deriving DecidableEq

/-- An absolute path that ends in a `'/'`: a base, or where something is mounted. -/
structure DirPath extends AbsPath where
  closed : bytes.getLast? = some slash
  deriving DecidableEq

/-- `enum fs_type`. `other` is a value no enumerator has, which a variable that was
never set may hold. -/
inductive FsType where
  | none
  | reg
  | dir
  | char
  | block
  | net
  | other (value : Int)
  deriving DecidableEq, Repr

/-- One turn of the loop both macros have: the segment found and what is left of
`local` behind it, `none` at the end of the path. -/
def pathTurn (path : CStr) : Option (CStr × CStr) :=
  let rest := path.dropWhile (· == slash)
  let segment := rest.takeWhile (· != slash)
  if segment.isEmpty && rest.isEmpty then none else some (segment, rest.drop segment.length)

/-- The segments of the turns. A turn takes a byte at least, so the length of the
path is enough fuel. -/
def pathTurns : Nat → CStr → List CStr
  | 0, _ => []
  | fuel + 1, path => match pathTurn path with
    | none => []
    | some (segment, rest) => segment :: pathTurns fuel rest

def pathCountSegments (path : CStr) : Nat := (pathTurns (path.length + 1) path).length

/-- The segments are no more than an `int` counts, and so are the bytes of each with the
`NUL` behind them. -/
def Walkable (segs : List CStr) : Prop := (∀ s ∈ segs, s.length + 1 < 2^31) ∧ segs.length < 2^31

instance (segs : List CStr) : Decidable (Walkable segs) := inferInstanceAs (Decidable (_ ∧ _))

/-- `path_walk`: `segment` and `left` as the body finds them, turn by turn. The
walk starts behind the first byte of the path, and `segment` has room for 255
bytes. There is none of a path that `int len` and `left` cannot hold (`PathAt.walk_eq`). -/
def pathWalk (path : CStr) : Option (List (CStr × Int)) :=
  let segs := pathTurns (path.length + 1) (path.drop 1)
  if Walkable segs then
    some (segs.mapIdx fun k segment => (segment.take 255, (pathCountSegments path : Int) - (k + 1)))
  else none

example : pathWalk (cstr "/a//bc/") = some [(cstr "a", 1), (cstr "bc", 0)] := by decide

end Aex.Fs
