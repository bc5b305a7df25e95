import ResourceQuery.CommandLine.Run

/-! # The program

Reads the files that the arguments name, prints what the library says, and exits with its code.
-/

open ResourceQuery

/-- The content of a file, if it can be read. -/
def contentOf? (path : String) : IO (Option String) := do
  try
    let text ← IO.FS.readFile path
    pure (some text)
  catch _ => pure none

/-- The files that a request needs, by name. -/
def filesOf (request : Request) : IO (List (String × Option String)) :=
  match request with
  | .run invocation =>
    invocation.files.mapM fun path => do
      let content ← contentOf? path
      pure (path, content)
  | _ => pure []

/-- Runs the program. -/
def main (arguments : List String) : IO UInt32 := do
  let request := CommandLine.read arguments
  let files ← filesOf request
  let outcome := Outcome.ofRequest (fun path => (files.lookup path).join) request
  IO.print outcome.stdout
  IO.eprint outcome.stderr
  pure (UInt32.ofNat outcome.code)
