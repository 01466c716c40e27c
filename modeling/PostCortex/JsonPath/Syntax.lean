import PostCortex.Numeric.Isize

/-!
# Syntax of paths

The paths of `jsonpath.rs`.
-/

namespace PostCortex
namespace JsonPath

open PostCortex.Numeric

inductive PathSegment where
  | field (name : String)
  | index (idx : Isize)
  | slice (start stop : Option Isize)
  | wildcard
  | union (indices : List Isize)
  deriving DecidableEq

structure Path where
  segments : List PathSegment
  deriving DecidableEq

end JsonPath
end PostCortex
