import Upkeep.Machine

/-!
# The host

Whether the host has a network: the system keeps one directory for each network interface, whose
state is in a file of it. The loopback interface does not count. And how the host is rebooted: by
a command for the shell.

## Main definitions

* `Host.isOnline`.
* `Host.reboot`.
-/

namespace Upkeep.Host

/-- Where the system keeps its network interfaces. -/
def interfaces : String := "/sys/class/net"

/-- Whether an interface is up. -/
def isUp (fs : Files) (dir interface : String) : Bool :=
  match fs.readText (Path.join (Path.join dir interface) "operstate") with
  | .ok state => Text.trimString state == "up"
  | .error _ => false

/-- Whether an interface other than loopback is up. -/
def isOnline (fs : Files) (dir : String) : Bool :=
  (fs.names dir).any fun interface => interface != "lo" && isUp fs dir interface

/-- What came of a reboot command. -/
def rebootOf : Command.Ending → Except String Unit
  | .refused reason => .error ("Failed to spawn reboot command: " ++ reason)
  | .expired => .error "reboot command was given up on"
  | .over status _ _ =>
    if status.isSuccess then .ok () else .error ("reboot command exited with " ++ status.text)

/-- Runs the command that reboots, for as long as it takes. -/
def reboot (around : Surroundings) (line : String) (m : Machine) : Except String Unit × Machine :=
  let (ending, m) := m.execute around (.shell line "") none
  (rebootOf ending, m)

end Upkeep.Host
