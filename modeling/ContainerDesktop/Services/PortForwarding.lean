import ContainerDesktop.Services.Engine

/-!
# Port forwarding

A line of the socket is a command, `O` or `C`, and the arguments of a
`docker-proxy`.  `ForwardPort` reads the host address, the port and the protocol
out of the arguments, keeps the list of ports up to date, and starts or stops
forwarders for the interfaces selected.

A line is a list of characters here.  What `line[2..]` skips are UTF-16 units, so
a character outside the basic plane counts as two; if the second character is one,
the half of it that stays is left out, since no expression looks at it.
-/

namespace ContainerDesktop.Services

/-! ## Reading a line -/

inductive HostAddress where
  | any
  | ipv6Any
  deriving DecidableEq

/-- The zeros of the decimal digits of Unicode in the basic plane. -/
def digitZeros : List Nat :=
  [0x0030, 0x0660, 0x06F0, 0x07C0, 0x0966, 0x09E6, 0x0A66, 0x0AE6, 0x0B66, 0x0BE6, 0x0C66, 0x0CE6,
    0x0D66, 0x0DE6, 0x0E50, 0x0ED0, 0x0F20, 0x1040, 0x1090, 0x17E0, 0x1810, 0x1946, 0x19D0, 0x1A80,
    0x1A90, 0x1B50, 0x1BB0, 0x1C40, 0x1C50, 0xA620, 0xA8D0, 0xA900, 0xA9D0, 0xA9F0, 0xAA50, 0xABF0,
    0xFF10]

/-- `\d` -/
def isDecimalDigit (c : Char) : Bool := digitZeros.any fun z => z ≤ c.toNat ∧ c.toNat ≤ z + 9

/-- `Match` of a text and a group after it: the group at the first place where both match. -/
def firstMatch {α : Type} (text : List Char) (group : List Char → Option α) : List Char → Option α
  | [] => none
  | c :: cs =>
    match text.isPrefixOf (c :: cs), group ((c :: cs).drop text.length) with
    | true, some value => some value
    | _, _ => firstMatch text group cs

/-- The group of `_hostipParser`. -/
def hostIpGroup (s : List Char) : Option HostAddress :=
  if "::".toList.isPrefixOf s then some .ipv6Any
  else if "0.0.0.0".toList.isPrefixOf s then some .any
  else none

/-- The group of `_hostPortParser`. -/
def hostPortGroup (s : List Char) : Option (List Char) :=
  match s.takeWhile isDecimalDigit with
  | [] => none
  | digits => some digits

/-- The group of `_protoParser`. -/
def protoGroup (s : List Char) : Option String :=
  if "tcp".toList.isPrefixOf s then some "tcp"
  else if "udp".toList.isPrefixOf s then some "udp"
  else none

/-- `int.TryParse` of digits: only those of ASCII are read, and the number has to fit. -/
def tryParseInt (digits : List Char) : Option Nat :=
  if digits.all Char.isDigit ∧ Nat.ofDigitChars 10 digits 0 ≤ 2147483647 then
    some (Nat.ofDigitChars 10 digits 0)
  else none

def parsePortForwardCmdLine (cmdLine : List Char) : HostAddress × PortAndProtocol :=
  let ipAddress := (firstMatch "-host-ip ".toList hostIpGroup cmdLine).getD .any
  let port := ((firstMatch "-host-port ".toList hostPortGroup cmdLine).bind tryParseInt).getD 0
  let proto := (firstMatch "-proto ".toList protoGroup cmdLine).getD "tcp"
  (ipAddress, ⟨port, proto⟩)

/-- `line[2..]`, unless the line is too short. -/
def skipTwo : List Char → Option (List Char)
  | [] => none
  | c :: cs =>
    if 0xFFFF < c.toNat then some cs
    else match cs with
      | [] => none
      | _ :: rest => some rest

/-! ## Forwarders -/

section PortForwarding

variable (W : World) (cfg : Settings)

/-- `DnsConfigurator.GetWslAddress` -/
def getWslAddress : EngineM (Option String) := do
  let reply ← ask W
    (command "ip addr show eth0 | grep \"inet\\b\" | awk '\x7bprint $2\x7d' | cut -d/ -f1")
  return if reply.1 then some (reply.2.headD "") else none

/-- `IPAddress.Parse(_dnsConfigurator.GetWslAddress())` -/
def targetAddress : EngineM String := do
  match (← Eff.get).dnsConfigurator with
  | none => Eff.throw .nullReference
  | some _ =>
    match ← getWslAddress W with
    | none => Eff.throw .argumentNull
    | some text => Eff.ofExcept ((W.parseAddress text).elim (.error .format) .ok)

/-- `PortForwarder.Start`.  There is no end point with a port above 65535. -/
def startForwarder (key : ForwarderKey) (target : String) : EngineM Unit := do
  if key.port ≤ 65535 then
    ask W (.startProcess (.forwarder key)
      ["-proto", key.protocol, "-frontend-ip", key.address, "-frontend-port", toString key.port,
        "-backend-ip", target, "-backend-port", toString key.port])
    let exited : Bool ← ask W (.waitForExit (.forwarder key))
    if exited = true then Eff.throw (.containerEngine "Failed to start the proxy.") else return ()
  else Eff.throw .argumentOutOfRange

/-- Stops the forwarder of a key and takes it off the table. -/
def removeForwarder (key : ForwarderKey) : EngineM Unit := do
  if key ∈ (← Eff.get).portForwarders.items then
    stopProcess W (.forwarder key)
    Eff.modify fun s => { s with portForwarders := s.portForwarders.remove key }
  else return ()

def addForwarder (key : ForwarderKey) (target : String) : EngineM Unit := do
  startForwarder W key target
  Eff.modify fun s => { s with portForwarders := s.portForwarders.insert key }

/-- One port at one address.  The exceptions are swallowed. -/
def forwardOn (target : String) (enabled : Bool) (portAndProto : PortAndProtocol)
    (address : String) : EngineM Unit :=
  let key : ForwarderKey := ⟨address, portAndProto.port, portAndProto.protocol⟩
  Eff.catching (do
      removeForwarder W key
      if enabled then addForwarder W key target else return ())
    fun _ => return ()

/-- `EnablePortForwardingInterface(networkInterface, ports, enabled)` -/
def enablePortForwardingInterface (networkInterface : NetworkInterface)
    (ports : List PortAndProtocol) (enabled : Bool) : EngineM Unit := do
  let unicast : List UnicastAddress ← ask W (.getIPProperties networkInterface.id)
  let addresses := (unicast.filter (·.interNetwork)).map (·.address)
  let target ← targetAddress W
  Eff.forEach (fun portAndProto => Eff.forEach (forwardOn W target enabled portAndProto) addresses)
    ports

/-- `EnablePortForwardingInterface(networkInterface, enabled)` -/
def enablePortForwardingForAll (networkInterface : NetworkInterface) (enabled : Bool) :
    EngineM Unit := do
  let s ← Eff.get
  enablePortForwardingInterface W networkInterface s.ports enabled

/-! ## `ForwardPort` -/

/-- `_ports.Add` for a port that is not there, or `_ports.Remove`. -/
def updatePorts (portAndProto : PortAndProtocol) (enabled : Bool) : EngineM Unit :=
  Eff.modify fun s =>
    { s with ports :=
        if enabled then
          if portAndProto ∈ s.ports then s.ports else s.ports ++ [portAndProto]
        else s.ports.erase portAndProto }

/-- The interfaces that are selected. -/
def forwardToInterfaces (portAndProto : PortAndProtocol) (enabled : Bool) : EngineM Unit := do
  if cfg.portForwardInterfaces = [] then return ()
  else
    let all : List NetworkInterface ← ask W .getAllNetworkInterfaces
    Eff.forEach (fun networkInterface =>
        enablePortForwardingInterface W networkInterface [portAndProto] enabled)
      (all.filter (·.id ∈ cfg.portForwardInterfaces))

/-- The first loopback interface. -/
def forwardToLoopback (portAndProto : PortAndProtocol) (enabled : Bool) : EngineM Unit := do
  let all : List NetworkInterface ← ask W .getAllNetworkInterfaces
  match all.find? (·.loopback) with
  | none => Eff.throw .invalidOperation
  | some networkInterface => enablePortForwardingInterface W networkInterface [portAndProto] enabled

/-- `ForwardPort` within its `try`. -/
def forwardPortSteps (line : String) : EngineM Unit := do
  match skipTwo line.toList with
  | none => Eff.throw .argumentOutOfRange
  | some cmdLine =>
    let enabled := "O".toList.isPrefixOf line.toList
    let (ipAddress, portAndProto) := parsePortForwardCmdLine cmdLine
    if ipAddress = .any then
      updatePorts portAndProto enabled
      forwardToInterfaces W cfg portAndProto enabled
      if portAndProto.protocol = "udp" then forwardToLoopback W portAndProto enabled else return ()
    else return ()

def forwardPort (line : String) : EngineM Unit :=
  Eff.catching (forwardPortSteps W cfg line) fun _ => return ()

end PortForwarding

end ContainerDesktop.Services
