import CodeAtlas.Files.Tree
import CodeAtlas.Files.Wildcard

/-! Rules about files to be left out.

A rule is a line of an ignore file and speaks of what is below the directory of
that file. A pattern with a slash in it is matched against the whole way from
there, any other against the name alone. An exclamation mark takes back earlier
rules, and a slash at the end restricts a rule to directories. Of the rules in a
file the last that matches counts. -/
namespace CodeAtlas.Files

inductive Verdict where
  | leaveOut
  | keep
deriving DecidableEq, Repr

structure IgnoreRule where
  /-- Ways to match; any one is enough. -/
  ways : List (List Wildcard)
  verdict : Verdict
  directoriesOnly : Bool
deriving DecidableEq, Repr

namespace IgnoreRule

/-- Without white space at the end, unless the last blank is escaped. -/
def trimLine (line : String) : String :=
  if Text.hasEnd line "\\ " then line
  else String.ofList (line.toList.reverse.dropWhile Text.isSpace).reverse

/-- Read a line; comments, blank lines and malformed patterns are no rules. -/
def parse? (line : String) : Option IgnoreRule := do
  let line := trimLine line
  if line.isEmpty || Text.hasStart line "#" then none
  else
    let (verdict, anchored, body) :=
      match line.toList with
      | '\\' :: '!' :: rest => (Verdict.leaveOut, false, '!' :: rest)
      | '\\' :: '#' :: rest => (.leaveOut, false, '#' :: rest)
      | '!' :: '/' :: rest => (.keep, true, rest)
      | '!' :: rest => (.keep, false, rest)
      | '/' :: rest => (.leaveOut, true, rest)
      | cs => (.leaveOut, false, cs)
    let directoriesOnly := body.getLast? == some '/'
    let body := if directoriesOnly then body.dropLast else body
    let body := if directoriesOnly && body.getLast? == some '\\' then body.dropLast else body
    let anywhere := !anchored && !body.contains '/' && body != ['*', '*']
    let pattern := (if anywhere then ['*', '*', '/'] else []) ++ body
    let pattern := if Text.hasEnd (String.ofList pattern) "/**" then pattern ++ ['/', '*'] else pattern
    return { ways := ← parsePattern? (String.ofList pattern), verdict, directoriesOnly }

def isMatch (r : IgnoreRule) (path : String) (isDirectory : Bool) : Bool :=
  (!r.directoriesOnly || isDirectory) && r.ways.any (Wildcard.accepts · path.toUTF8.toList)

/-- The rules of a text. -/
def ofText (text : String) : List IgnoreRule :=
  match (Text.lines text) with
  | [] => []
  | first :: rest => (((Text.afterStart? first "\uFEFF").getD first) :: rest).filterMap parse?

/-- What the rules say about a path below their directory. -/
def verdict? (rules : List IgnoreRule) (path : String) (isDirectory : Bool) : Option Verdict :=
  (rules.reverse.find? (·.isMatch path isDirectory)).map IgnoreRule.verdict

end IgnoreRule

end CodeAtlas.Files
