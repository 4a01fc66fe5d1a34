import TypedModule.Command.Run

/-!
# The command

The outermost layer: it reads the files that a run may ask for, carries out the plan of the run
and prints its report.
-/

namespace TypedModule

open Command

/-- The cause of a failed file operation. System codes may come with either sign. -/
def pathFaultOf (e : IO.Error) : PathFault :=
  match e with
  | .noFileOrDirectory .. => .missing
  | .inappropriateType _ code _ =>
    if code = 21 ∨ code = -21 then .isDirectory else .notDirectory
  | .invalidArgument _ code _ =>
    if code = 36 ∨ code = -36 then .nameTooLong else .refused (toString e)
  | _ => .refused (toString e)

def readOctets (path : String) : IO (Except PathFault (List UInt8)) := do
  try
    return .ok (← IO.FS.readBinFile path).toList
  catch e => return .error (pathFaultOf e)

/-- Whether the outcome of reading shows that there is something at the path. -/
def showsPresence : Except PathFault (List UInt8) → Bool
  | .ok _ => true
  | .error .isDirectory => true
  | .error (.refused _) => true
  | .error _ => false

/-- The files that a run may ask for, read beforehand. -/
def gatherFiles (a : Arguments) : IO Files := do
  let paths := a.target :: a.source :: [a.config, a.headerFile].filterMap Arguments.path?
  let contents ← paths.mapM fun path => do
    return (path, ← readOctets path)
  let outcome (path : String) : Except PathFault (List UInt8) :=
    ((contents.find? fun c => c.1 == path).map (·.2)).getD (.error .missing)
  return { present := fun path => showsPresence (outcome path), read := outcome }

def carryOut (plan : Plan) : IO RunResult := do
  match plan with
  | .stop _ => return plan.finish (.ok ())
  | .save _ path text =>
    try
      IO.FS.writeBinFile path (ByteArray.mk (Utf8.encode text.toList).toArray)
      return plan.finish (.ok ())
    catch e => return plan.finish (.error (pathFaultOf e))

end TypedModule

section

open TypedModule

def main (words : List String) : IO UInt32 := do
  let result ← match Command.parse words with
    | .error stop => pure (.reported stop.report)
    | .ok a => do carryOut (a.plan (← gatherFiles a))
  let report := match result with
    | .reported report => report
    | .brokenOff _ => ⟨1, "", PathFault.zeroChar.text ++ "\n"⟩
  IO.print report.out
  IO.eprint report.err
  return report.status.toUInt32

end
