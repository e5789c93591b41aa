import Blockscript.CommandLine.Report

/-!
# The program

The command line as a program: it reads the file that the arguments name, and does
what the report of the command says.
-/

open Blockscript

/-- What is at a path. -/
def readContent (path : String) : IO FileContent := do
  try
    let bytes ← IO.FS.readBinFile path
    match String.fromUTF8? bytes with
    | some s => return .text s
    | none => return .unreadable
  catch _ => return .missing

/-- Reads the file that the arguments name, and does what the report says. -/
def main (arguments : List String) : IO UInt32 := do
  let content ← match Command.ofArguments? arguments with
    | some c => readContent (normalizePath c.path)
    | none => pure .missing
  let report := commandLine .unlimited .default arguments fun _ => content
  for (path, text) in report.written do
    IO.FS.writeFile path text
  IO.print report.output
  IO.eprint report.errors
  match report.ending with
  | .exit code => return code.toUInt32
  | .unreadableFile =>
    IO.eprintln "Error: file cannot be read"
    return 1
  | .oversizedDecimal =>
    IO.eprintln "Error: decimal out of range"
    return 1
  | .tooDeep =>
    IO.eprintln "Error: program or tree nests too deep"
    return 1
  | .excessiveDigits =>
    IO.eprintln "Error: integer has too many digits"
    return 1
  | .loneSurrogate =>
    IO.eprintln "Error: file holds half of a surrogate pair"
    return 1
  | .halted _ =>
    IO.eprintln "Error: evaluation halted"
    return 1
