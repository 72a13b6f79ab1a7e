/-
Globs in which no wildcard but the recursive one crosses a separator: their tokens, and the texts that they match.
-/
import Mathlib.Data.List.Infix

namespace Squallz.Text

inductive GlobToken
  | literal (c : Char)
  | any
  | zeroOrMore
  | recursivePrefix
  | recursiveSuffix
  | recursiveZeroOrMore
deriving DecidableEq

/-- The token of a recursive wildcard between separators takes the place of the separator before it. -/
def pushRecursive (token : GlobToken) : List GlobToken → List GlobToken
  | .recursivePrefix :: tokens => .recursivePrefix :: tokens
  | .recursiveSuffix :: tokens => .recursiveSuffix :: tokens
  | _ :: tokens => token :: tokens
  | [] => [token]

/-- The tokens of a glob without classes, alternatives and escapes; those read so far are given backwards. -/
def globTokens : Option Char → List GlobToken → List Char → Option (List GlobToken)
  | _, tokens, [] => some tokens.reverse
  | _, tokens, '?' :: rest => globTokens (some '?') (.any :: tokens) rest
  | before, tokens, '*' :: '*' :: rest =>
    if tokens = [] then
      match rest with
      | [] => some [.recursivePrefix]
      | '/' :: rest => globTokens (some '/') [.recursivePrefix] rest
      | c :: rest => globTokens (some '*') (.zeroOrMore :: .zeroOrMore :: tokens) (c :: rest)
    else if before ≠ some '/' then globTokens (some '*') (.zeroOrMore :: .zeroOrMore :: tokens) rest
    else
      match rest with
      | [] => some (pushRecursive .recursiveSuffix tokens).reverse
      | '/' :: rest => globTokens (some '/') (pushRecursive .recursiveZeroOrMore tokens) rest
      | c :: rest => globTokens (some '*') (.zeroOrMore :: .zeroOrMore :: tokens) (c :: rest)
  | _, tokens, '*' :: rest => globTokens (some '*') (.zeroOrMore :: tokens) rest
  | _, tokens, c :: rest =>
    if c ∈ ['[', ']', '\x7b', '\x7d', '\\'] then none else globTokens (some c) (.literal c :: tokens) rest

/-- What is left of a text when some of the characters at its start are taken off, none of them a separator. -/
def withinComponent : List Char → List (List Char)
  | [] => [[]]
  | c :: rest => (c :: rest) :: if c = '/' then [] else withinComponent rest

/-- What stands behind each separator of a text. -/
def afterSlashes : List Char → List (List Char)
  | [] => []
  | c :: rest => if c = '/' then rest :: afterSlashes rest else afterSlashes rest

def globMatches : List GlobToken → List Char → Bool
  | [], text => text.isEmpty
  | .literal c :: tokens, text =>
    match text with
    | c' :: rest => c == c' && globMatches tokens rest
    | [] => false
  | .any :: tokens, text =>
    match text with
    | c' :: rest => c' != '/' && globMatches tokens rest
    | [] => false
  | .zeroOrMore :: tokens, text => (withinComponent text).any fun rest => globMatches tokens rest
  | .recursivePrefix :: tokens, text => (text :: afterSlashes text).any fun rest => globMatches tokens rest
  | .recursiveSuffix :: tokens, text =>
    match text with
    | c' :: rest => c' == '/' && rest.tails.any fun rest => globMatches tokens rest
    | [] => false
  | .recursiveZeroOrMore :: tokens, text =>
    match text with
    | c' :: rest => c' == '/' && (rest :: afterSlashes rest).any fun rest => globMatches tokens rest
    | [] => false

/-- A recursive wildcard at the end matches everything below. -/
theorem globMatches_recursiveSuffix (rest : List Char) : globMatches [.recursiveSuffix] ('/' :: rest) = true := by
  rw [globMatches, beq_self_eq_true, Bool.true_and, List.any_eq_true]
  exact ⟨[], (List.mem_tails _ _).2 List.nil_suffix, rfl⟩

example : (globTokens none [] "docs/**/*.md".toList).map (globMatches · "docs/a/b.md".toList) = some true := by
  decide +kernel

end Squallz.Text
