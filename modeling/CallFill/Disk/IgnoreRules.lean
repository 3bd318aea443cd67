import CallFill.Text.Blank
import CallFill.Text.Glob

/-!
# Ignore rules

An ignore file holds one rule per line: a glob pattern for the paths below the file's directory,
perhaps marked to bring back what earlier rules left out, or to apply to directories only. The last
rule that applies to a path decides. Lines that are no pattern are passed over.
-/

namespace CallFill

/-- What the rules say about a path. -/
inductive Verdict where
  | ignored
  | included
  deriving DecidableEq, Repr

/-- One line of an ignore file. -/
structure IgnoreRule where
  glob : Text.Glob
  /-- Whether the rule brings paths back. -/
  isInclusion : Bool
  /-- Whether the rule is for directories only. -/
  isForDirectories : Bool

namespace IgnoreRule

/-- The pattern of a rule made to match at every depth, unless it holds a slash or began with
one. -/
def anchored (isAbsolute : Bool) (pattern : List Char) : List Char :=
  let isEverywhere := pattern = ['*', '*'] ∨ ['*', '*', '/'].isPrefixOf pattern
  if isAbsolute ∨ pattern.contains '/' ∨ isEverywhere then pattern else ['*', '*', '/'] ++ pattern

/-- The pattern of a rule; where it ends in all that lies below a directory, the directory itself
does not match. -/
def below (pattern : List Char) : List Char :=
  if ['*', '*', '/'].isPrefixOf pattern.reverse then pattern ++ ['/', '*'] else pattern

/-- A pattern without the slash at its end, and whether it had one. -/
def withoutFinalSlash (pattern : List Char) : List Char × Bool :=
  match pattern.reverse with
  | '/' :: '\\' :: before => (before.reverse, true)
  | '/' :: before => (before.reverse, true)
  | _ => (pattern, false)

/-- The rule with a pattern, once the marks at its start are read. -/
def ofPattern? (isInclusion isAbsolute : Bool) (pattern : List Char) : Option IgnoreRule :=
  let (pattern, isForDirectories) := withoutFinalSlash pattern
  (Text.Glob.ofText? (below (anchored isAbsolute pattern))).map fun glob =>
    { glob, isInclusion, isForDirectories }

/-- Reads a slash at the start of a pattern. -/
def ofMarked? (isInclusion : Bool) (pattern : List Char) : Option IgnoreRule :=
  match pattern with
  | '/' :: rest => ofPattern? isInclusion true rest
  | _ => ofPattern? isInclusion false pattern

/-- The rule on a line: none on an empty line, after a number sign, or where there is no pattern. -/
def ofLine? (line : List Char) : Option IgnoreRule :=
  let line := match line.reverse with
    | ' ' :: '\\' :: _ => line
    | _ => Text.trimEnd line
  match line with
  | [] => none
  | '#' :: _ => none
  | '\\' :: '!' :: rest => ofPattern? false false ('!' :: rest)
  | '\\' :: '#' :: rest => ofPattern? false false ('#' :: rest)
  | '!' :: rest => ofMarked? true rest
  | line => ofMarked? false line

/-- Whether the rule is about a path. -/
def appliesTo (r : IgnoreRule) (path : String) (isDirectory : Bool) : Bool :=
  r.glob.isMatch path && (isDirectory || !r.isForDirectories)

end IgnoreRule

/-- What some rules say about a path below their directory: the last that applies decides. -/
def verdict? (rules : List IgnoreRule) (path : String) (isDirectory : Bool) : Option Verdict :=
  (rules.reverse.find? fun r => r.appliesTo path isDirectory).map fun r =>
    if r.isInclusion then .included else .ignored

end CallFill
