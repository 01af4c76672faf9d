import FloatLayout.Fault

/-!
# Running scripts

A script is a list of steps. Each of them changes a state and answers or fails; the first that fails
ends the script.

## Main definitions

- `Script.run`: the answers of a script, the state it leaves, and why it failed if it did.
-/

namespace FloatLayout.Script

/-- The answers to the steps of a script up to the first that fails, the state after that, and the
    fault. -/
def run {σ ι α : Type} (step : σ → ι → σ × Except Fault α) (s : σ) :
    List ι → List α × σ × Option Fault
  | [] => ([], s, none)
  | i :: rest =>
    match step s i with
    | (next, .error fault) => ([], next, some fault)
    | (next, .ok answer) =>
      let (answers, last, fault) := run step next rest
      (answer :: answers, last, fault)

end FloatLayout.Script
