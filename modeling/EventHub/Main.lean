import EventHub.Service.Startup
import EventHub.Settings.EnvironmentFile
import EventHub.Web.Server
import Std.Time.DateTime
/-!
# The program

Starts the service as the command line, the environment and the environment file ask for. Whatever
listens on the port hands its requests over on the standard input, a line each with the method, the
target and perhaps a JSON text. An answer is written as a line with its status and a line with its
content, or as the line `pending` if there is none, followed by the frames that are ready on the
open streams. The end of the input ends the service.
-/

namespace EventHub

open Web (Request Response Server)

def programName : String := "sse_relay_rs"

def requestOfLine (line : String) : Request :=
  match Text.splitFirst ' ' (Text.trim line).toList with
  | (method, rest) =>
    let (target, body) := Text.splitFirst ' ' (rest.getD [])
    { method := String.ofList method
      target := target
      headers := [⟨"content-type", Text.Utf8.encode "application/json".toList⟩]
      body := Text.Utf8.encode (body.getD []) }

def answerLines : Option Response → List String
  | none => ["pending"]
  | some ⟨status, _, .text content⟩ => [toString status, content]
  | some ⟨status, _, .stream number⟩ => [toString status, "stream " ++ toString number]

def readyFrames (limit : Nat) (s : Server) (number : Nat) : Server × List String :=
  match limit with
  | 0 => (s, [])
  | limit + 1 =>
    match s.readStream List.head? number with
    | (s, .frame text) =>
      let (s, frames) := readyFrames limit s number
      (s, text :: frames)
    | (s, _) => (s, [])

def allReadyFrames (s : Server) : Server × List String :=
  (List.range s.streams.length).foldl (fun (s, frames) number =>
    let (s, more) := readyFrames Server.runBound s number
    (s, frames ++ more)) (s, [])

def currentTime : IO Time.Timestamp := do
  let now := (← Std.Time.Timestamp.now).toNanosecondsSinceUnixEpoch.toInt.toNat
  return (Time.Timestamp.afterEpoch? (now / 1000000000) now).getD .epoch

def freshNumber : IO Nat := do
  return (← IO.getRandomBytes 16).toList.foldl (fun n b => n * 256 + b.toNat) 0

def environmentVariables : IO Settings.EnvironmentFile.Variables := do
  let set ← Settings.options.filterMapM fun o => do
    return (← IO.getEnv o.capitals).map fun value => (o.capitals, value)
  try
    return Settings.EnvironmentFile.load set (← IO.FS.readFile ".env")
  catch _ => return set

def printLines (lines : List String × List String) : IO Unit := do
  lines.1.forM IO.println
  lines.2.forM IO.eprintln
  (← IO.getStdout).flush

/-- Answers requests until the input ends; `started` is when the clock of the server began. -/
partial def serve (started : Nat) (s : Server) : IO Server := do
  let line ← (← IO.getStdin).getLine
  if line.isEmpty then return s
  let (s, _) := s.await { activity := .sleep ((← IO.monoMsNow) - started) }
  let (s, response) := s.respond (requestOfLine line)
  let (s, frames) := allReadyFrames s.settle
  printLines (answerLines response, [])
  frames.forM IO.print
  serve started s

/-- Runs the service from the start to the end, and says with which exit code it ends. -/
def runService (arguments : List String) : IO UInt32 := do
  let id : ServerId := ⟨generated (← freshNumber)⟩
  let time ← currentTime
  let start := Service.start programName { } id (← environmentVariables) arguments
  printLines (start.output (String.ofList time.text))
  match start with
  | .running settings _ =>
    match Server.ofSettings id time settings with
    | .error _ => return UInt32.ofNat Service.failureExit
    | .ok server =>
      let server := { server with
        origins := Web.Cors.origins? settings.allowedOrigins
        nextName := ← freshNumber }
      let _ ← serve (← IO.monoMsNow) server.startLoops.settle
      printLines (Log.lines (String.ofList (← currentTime).text) settings.logLevel
        (Service.closingRecords programName settings))
      return UInt32.ofNat Service.successExit
  | _ => return UInt32.ofNat (start.exit.getD Service.successExit)

end EventHub

def main (arguments : List String) : IO UInt32 := EventHub.runService arguments
