import CardRoom.Tournament.Report

/-! # The command line

Runs the simulated tournament. The environment may set how long a moved player is left alone,
and whether the journal is shown.
-/

/-- The environment variable that asks for the journal when it is set to `info`. -/
def CardRoom.journalVariable : String := "TOURNAMENT_LOG"

def main : IO UInt32 := do
  let environment ← IO.getEnv CardRoom.restVariable
  let listening := (← IO.getEnv CardRoom.journalVariable) == some "info"
  let transcript := CardRoom.Tournament.simulation environment listening
  for line in transcript.output do
    IO.println line
  for line in transcript.errors do
    IO.eprintln line
  return transcript.status.toUInt32
