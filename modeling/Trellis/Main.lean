import Trellis.CommandLine

/-!
The program: the command line on real files.
-/

/-- Files, standard input and output, and standard error. -/
def Trellis.Command.Terminal.standard : Trellis.Command.Terminal IO where
  inputText := do
    try some <$> (← IO.getStdin).readToEnd catch _ => return none
  fileText path := do
    try some <$> IO.FS.readFile path catch _ => return none
  save path text := do
    try
      IO.FS.writeFile path text
      return true
    catch _ => return false
  print text := do (← IO.getStdout).putStr text
  note line := do (← IO.getStderr).putStrLn line

def main (args : List String) : IO UInt32 := do
  return (← Trellis.Command.runArgs .standard args).toUInt32
