/-!
# Process identifiers and exit reasons
-/

namespace Rebar

structure ProcessId where
  nodeId : Nat
  localId : Nat
deriving DecidableEq

inductive ExitReason where
  | normal
  | abnormal (reason : String)
  | kill
  | linkedExit (pid : ProcessId) (reason : ExitReason)
deriving DecidableEq

def ExitReason.isNormal : ExitReason → Bool
  | .normal => true
  | _ => false

end Rebar
