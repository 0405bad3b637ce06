import CodeAtlas.CommandLine.Run
import CodeAtlas.Files.Snapshot
import CodeAtlas.Json.Parser

/-! The program: a command line over the files that standard input lists.

Every line of standard input is a file in JSON. Results go to standard output,
errors to standard error. What a layout without a seed draws comes from the system. -/
namespace CodeAtlas

/-- The lines of a stream. -/
partial def readLines (input : IO.FS.Stream) : IO (List String) := do
  let line ← input.getLine
  if line.isEmpty then return []
  return line :: (← readLines input)

end CodeAtlas

open CodeAtlas in
def main (args : List String) : IO UInt32 := do
  let lines ← readLines (← IO.getStdin)
  let some tree := (lines.mapM Json.parse?).bind (FileTree.writeAll? {} 0)
    | IO.eprintln "Error: unreadable list of files"
      return 1
  let drawn := Random.Generator.ofKey (← IO.getRandomBytes 32)
  let outcome := CommandLine.run tree { now := 0, wall := 0 } drawn args
  IO.print outcome.printed.text
  if let some e := outcome.error then IO.eprintln ("Error: " ++ CommandLine.errorText e)
  return outcome.exitCode.toUInt32
