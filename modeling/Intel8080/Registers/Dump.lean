import Intel8080.Hex
import Intel8080.Registers.Basic

/-!
# The register dump

One line with all registers and flags of a machine that has run.
-/

namespace Intel8080

namespace Registers

def flagText (set : Bool) : String := if set then "1" else "0"

/-- Program counter, stack pointer, accumulator, pairs and status word, then the flags one by
one. -/
def dump (r : Registers) : String :=
  "PC=" ++ Hex.upper 4 r.pc.toNat ++ " SP=" ++ Hex.upper 4 r.sp.toNat
    ++ " A=" ++ Hex.upper 2 r.a.toNat ++ " BC=" ++ Hex.upper 4 r.bc.toNat
    ++ " DE=" ++ Hex.upper 4 r.de.toNat ++ " HL=" ++ Hex.upper 4 r.hl.toNat
    ++ " F=" ++ Hex.upper 2 r.flags.status.toNat
    ++ " (Z=" ++ flagText r.flags.zero ++ " S=" ++ flagText r.flags.sign
    ++ " P=" ++ flagText r.flags.parity ++ " CY=" ++ flagText r.flags.carry
    ++ " AC=" ++ flagText r.flags.auxCarry ++ ")"

end Registers

end Intel8080
