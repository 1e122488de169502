import AsmOutline.CommandLine.Run
import AsmOutline.LogLevel

/-! # The command line program -/
namespace AsmOutline.Program

def usage : String := "Usage: asmlens [OPTIONS] <FILE>

Options:
      --dialect <masm|nasm>  Dialect whose directives open and close folds
      --keywords <PATH>      Keyword table to use instead of the built-in one
      --config <PATH>        Settings file
      --format <text|json>   Output format
      --tokens               Report the tokens of every line
      --labels               Report label problems
      --folds                Report foldable regions
  -v, --verbose              Log on standard error
  -h, --help                 Print help
  -V, --version              Print version
"

def readFile (path : String) : IO (Except FileError Text) := do
  try
    let bytes ← IO.FS.readBinFile path
    match String.fromUTF8? bytes with
    | some text => return .ok text.toList
    | none => return .error .notText
  catch
    | .noFileOrDirectory .. => return .error .missing
    | .inappropriateType .. => return .error .directory
    | fault => return .error (.other (toString fault))

def stopText : Options.Stop → String
  | .invalidValue => "error: invalid value"
  | .unknownArgument => "error: unexpected argument"
  | .repeated => "error: argument used more than once"
  | .needlessValue => "error: unexpected value"
  | .missingFile => "error: the required argument <FILE> was not provided"
  | .help => usage
  | .version => s!"asmlens {Report.version}\n"

def fail (fault : RunFault) : IO UInt32 := do
  IO.eprintln s!"asmlens: {fault.message}"
  return 1

def runOptions (options : Options) : IO UInt32 := do
  let files ← options.paths.mapM fun path => return (path, ← readFile path)
  match options.run (fun path => (files.lookup path).getD (.error .missing)) {} with
  | .error fault => fail fault
  | .ok output =>
    try
      let stdout ← IO.getStdout
      stdout.putStr output
      stdout.flush
      return 0
    catch fault => fail (.unwritable (toString fault))

end AsmOutline.Program

open AsmOutline Program in
def main (arguments : List String) : IO UInt32 := do
  match Options.ofArguments arguments with
  | .ok options => runOptions options
  | .error stop =>
    if stop = .help ∨ stop = .version then
      IO.print (stopText stop)
      return 0
    else
      IO.eprintln (stopText stop)
      return 2
