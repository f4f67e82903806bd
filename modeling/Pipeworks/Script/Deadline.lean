import Pipeworks.Script.Step
import Pipeworks.Subprocess
/-!
Scripts and the clock. A script must have ended at a moment that is reckoned from when it begins. Whoever runs it breaks
down if that moment cannot be told.
-/
namespace Pipeworks

namespace Script

/-- Loads a script at a moment. Only a script that can be read and has an entry function is run, and needs a deadline;
there is nothing where that cannot be told. -/
def loadAt? (now : Moment) (source : String) (budget : Duration) : Option (Except Error Loaded) :=
  match Parser.parse source with
  | .error _ => some (load source budget)
  | .ok p =>
    match entryOf p with
    | .error _ => some (load source budget)
    | .ok _ => (Moment.later? now budget).map fun _ => load source budget

/-- Applies a script to a record at a moment. -/
def Loaded.runAt? (now : Moment) (l : Loaded) (record : Json) :
    Option (Except Error (Option Json) × List Builtin.LogLine) :=
  (Moment.later? now l.budget).map fun _ => l.run record

end Script

end Pipeworks
