import Upkeep.Config
import Upkeep.Program

/-!
# Reboots

Whether a run recommends a reboot. Under the policy that leaves it to the host, the host says
which of the applied packages need one; the packages that a running system cannot replace are
listed here.

## Main definitions

* `Reboot.reason`: why applied packages need a reboot.
* `Reboot.advise`: the recommendation.
-/

namespace Upkeep.Reboot

/-- The packages that a running system cannot replace. -/
def corePackages : List String :=
  ["kernel", "kernel-core", "kernel-rt", "kernel-rt-core", "glibc", "linux-firmware", "systemd",
    "dbus", "dbus-broker", "dbus-daemon", "microcode_ctl"]

/-- Whether a package needs a reboot. -/
def needsReboot (name : String) : Bool :=
  corePackages.contains name || name.startsWith "kernel-core"

/-- Why applied packages need a reboot, if they do. -/
def reason (applied : List Candidate) : Option String :=
  let names := (applied.map Candidate.name).filter needsReboot
  if names.isEmpty then none
  else some ("core packages updated: " ++ String.intercalate ", " names)

/-- A recommendation, for a reason. -/
def recommend (reason : String) : RebootAdvice := ⟨true, reason, false⟩

/-- The recommendation after packages were applied; an error when the host cannot say. -/
def advise (policy : RebootPolicy) (applied : List Candidate) :
    Program (Except String RebootAdvice) :=
  if applied.isEmpty then .done (.ok RebootAdvice.none)
  else
    match policy with
    | .never => .done (.ok RebootAdvice.none)
    | .whenChanged =>
      .done (.ok (recommend (toString applied.length ++ " packages updated")))
    | .whenNeeded =>
      .ask (.rebootReason applied) fun a =>
        .done <| match a.value with
          | .error e => .error e
          | .ok none => .ok RebootAdvice.none
          | .ok (some why) => .ok (recommend why)

end Upkeep.Reboot
