/-
The glob filter of listing, extraction and compression input: user patterns are expanded, compiled and matched against
entry paths.
-/
import Squallz.Api.Names

namespace Squallz.Core

open Squallz.Api

/-- Compiled patterns; without any the filter matches nothing. -/
structure PathFilter where
  set : Option (String → Bool)

namespace PathFilter

/-- The globs that one user pattern stands for. -/
def variants (pattern : String) : List String :=
  let p := trimEndSlashes pattern
  if p.isEmpty then []
  else [p, p ++ "/**"] ++ if p.toList.contains '/' then [] else ["**/" ++ p, "**/" ++ p ++ "/**"]

section

variable {Glob : Type} (buildGlob : String → Except String Glob)
  (buildGlobSet : List Glob → Except String (String → Bool))

/-- The loop of `new` over the patterns: the globs in their order. -/
def collect (patterns : List String) : Res (List Glob) := do
  let built ← patterns.mapM fun pattern => (variants pattern).mapM fun variant =>
    match buildGlob variant with
    | .ok glob => pure glob
    | .error error => raise (.other s!"invalid glob pattern '{pattern}': {error}")
  pure built.flatten

def new (patterns : List String) : Res PathFilter :=
  if patterns = [] then pure ⟨none⟩
  else do
    let globs ← collect buildGlob patterns
    if globs.isEmpty then pure ⟨none⟩
    else
      match buildGlobSet globs with
      | .ok set => pure ⟨some set⟩
      | .error error => raise (.other s!"invalid glob pattern set: {error}")

end

def isEmpty (filter : PathFilter) : Bool := filter.set.isNone

def «matches» (filter : PathFilter) (path : String) : Bool := filter.set.any fun set => set path

end PathFilter

end Squallz.Core
