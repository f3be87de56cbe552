import DeskScript.Picture.Png
import DeskScript.Session

/-! The command line: reads the files that are named and the commands on standard input, and prints
what comes of the request. -/

open DeskScript

namespace DeskScript.Main

def contents (path : String) : IO (Option (List UInt8)) := do
  try
    return some (← IO.FS.readBinFile path).toList
  catch _ => return none

def filesAt (paths : List String) : IO Files := do
  let known ← paths.mapM fun path => return (path, ← contents path)
  return fun path => (known.lookup path).join

def exists? (path : String) : IO Bool := do
  try
    discard <| IO.FS.Handle.mk path .read
    return true
  catch _ => return false

/-- Whether the program can be found, where the system looks for it. -/
def isProgram (name : String) : IO Bool := do
  if name.contains '/' then exists? name
  else
    let folders := ((← IO.getEnv "PATH").getD "").splitOn ":"
    folders.anyM fun folder => exists? s!"{folder}/{name}"

partial def readAll (stream : IO.FS.Stream) (bytes : ByteArray) : IO ByteArray := do
  let more ← stream.read 4096
  if more.isEmpty then return bytes else readAll stream (bytes ++ more)

def print (r : Report) : IO UInt32 := do
  for f in r.findings do
    IO.eprintln f.text
  for line in r.lines do
    IO.println line
  if let some refusal := r.refusal then
    IO.eprintln s!"Error: {refusal.message}"
  return r.code.toUInt32

end DeskScript.Main

def main (arguments : List String) : IO UInt32 := do
  let request := Request.ofArguments arguments
  let files ← Main.filesAt request.paths
  let programs ← (request.programs files).filterM fun name => Main.isProgram name
  let commands ←
    if request.runs then do
      pure (Command.ofBytes (← Main.readAll (← IO.getStdin) .empty).toList)
    else pure []
  Main.print (request.report files Png.codec programs.contains commands)
