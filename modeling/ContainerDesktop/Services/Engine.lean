import ContainerDesktop.Effect
import Mathlib.Data.List.Nodup

/-!
# The container engine

`DefaultContainerEngine` with the state that its methods share.  All it does
outside of this state is a `Request`, and `World` says how each request ends: with
a reply or by an exception, and for equal requests differently each time (`n` is
the number of equal requests before it).  The requests made are kept in
`EngineState.requests`, last one first.

Three things are not in the state: the background tasks that `Start` leaves
behind (the loop for the data distribution, the port listener, the proxies of the
distributions), the DNS configurator but for whether it has a forwarder, and the
log.
-/

namespace ContainerDesktop.Services

/-! ## Requests -/

inductive Exn where
  | containerEngine (message : String)
  | aggregate (ex stopEx : Exn)
  | nullReference
  | argumentNull
  | argumentOutOfRange
  | format
  | invalidOperation
  | external (message : String)

/-- A key of `_portForwarders`, written `address:port:protocol`. -/
structure ForwarderKey where
  address : String
  port : Nat
  protocol : String
  deriving DecidableEq

/-- The processes that the engine has a handle of. -/
inductive ProcessRole where
  | proxy
  | existingProxy
  | forwarder (key : ForwarderKey)
  deriving DecidableEq

structure UnicastAddress where
  address : String
  interNetwork : Bool
  deriving DecidableEq

structure NetworkInterface where
  id : String
  loopback : Bool
  deriving DecidableEq

inductive Request where
  | executeCommand (command distroName : String) (user : Option String)
  | terminate (distroName : String)
  | configureDns
  | getPem (fileName : String)
  | getProcessesByName (processName : String)
  | startProcess (process : ProcessRole) (args : List String)
  | waitForExit (process : ProcessRole)
  | hasExited (process : ProcessRole)
  | kill (process : ProcessRole)
  | getAllNetworkInterfaces
  | getIPProperties (id : String)
  deriving DecidableEq

/-- What a request that does not throw answers.  A command answers whether it exited with
zero, and its lines; the DNS configurator, whether it started a forwarder. -/
abbrev Request.Reply : Request → Type
  | .executeCommand .. => Bool × List String
  | .terminate _ | .configureDns | .getProcessesByName _ | .waitForExit _ | .hasExited _ => Bool
  | .getPem _ => String
  | .startProcess .. | .kill _ => Unit
  | .getAllNetworkInterfaces => List NetworkInterface
  | .getIPProperties _ => List UnicastAddress

/-- How requests end, how long the two timers run (as often as they can be looked at), and how
addresses are read. -/
structure World where
  /-- The end of the request `r` after `n` equal ones. -/
  reply : (n : Nat) → (r : Request) → Except Exn r.Reply
  /-- The timer for the data distribution, by cancellation source. -/
  dataDistroTimer : Nat → Nat
  /-- The timer for the daemon to stop, by the number of signals sent to it. -/
  pgrepTimer : Nat → Nat
  /-- The address that a text gives after `Trim` and `IPAddress.Parse`, unless these throw. -/
  parseAddress : String → Option String

/-! ## State -/

/-- Distinct items, in the order in which they are enumerated.  A place that was freed is not
filled again. -/
structure Distinct (α : Type) where
  items : List α
  nodup : items.Nodup

namespace Distinct

variable {α : Type}

def empty : Distinct α := ⟨[], List.nodup_nil⟩

variable [DecidableEq α]

/-- Adds an item at the end, unless it is there. -/
def insert (t : Distinct α) (x : α) : Distinct α :=
  if h : x ∈ t.items then t
  else ⟨t.items ++ [x], t.nodup.append (List.nodup_singleton x) (by simpa using h)⟩

def remove (t : Distinct α) (x : α) : Distinct α := ⟨t.items.erase x, t.nodup.erase x⟩

end Distinct

inductive RunningState where
  | stopped
  | stopping
  | starting
  | running
  deriving DecidableEq

structure PortAndProtocol where
  port : Nat
  protocol : String
  deriving DecidableEq

/-- The configuration as the engine reads it during one operation. -/
structure Settings where
  enabledDistributions : Distinct String
  portForwardInterfaces : List String
  daemonConfig : String
  /-- The file names of the certificates. -/
  certificates : List String

/-- The fields of the engine.  Cancellation sources are numbered, and `sources` of them have
been created. -/
structure EngineState where
  runningState : RunningState
  cts : Option Nat
  sources : Nat
  cancelled : List Nat
  portforwardListenerCts : Option Nat
  enabledDistroProxies : List (String × Nat)
  portForwarders : Distinct ForwarderKey
  ports : List PortAndProtocol
  /-- Whether there is a proxy process. -/
  proxyProcess : Bool
  /-- The DNS configurator, and whether it has a forwarder. -/
  dnsConfigurator : Option Bool
  requests : List Request

/-- The engine that the constructor makes. -/
def EngineState.init : EngineState where
  runningState := .stopped
  cts := none
  sources := 0
  cancelled := []
  portforwardListenerCts := none
  enabledDistroProxies := []
  portForwarders := .empty
  ports := []
  proxyProcess := false
  dnsConfigurator := none
  requests := []

abbrev EngineM (α : Type) := Eff EngineState Exn α

def containerDesktopDistroName : String := "container-desktop"

def containerDesktopDataDistroName : String := "container-desktop-data"

/-- Whether an output line starts with `tail`. -/
def startsWithTail (line : String) : Bool := "tail".toList.isPrefixOf line.toList

section Engine

variable (W : World) (cfg : Settings)

/-- Makes a request. -/
def ask (r : Request) : EngineM r.Reply := fun s =>
  (W.reply (s.requests.count r) r, { s with requests := r :: s.requests })

/-- A command in the distribution of the engine. -/
abbrev command (text : String) : Request := .executeCommand text containerDesktopDistroName none

/-- `ExecuteCommand`: whether the command exited with zero. -/
def executeCommand (text : String) : EngineM Bool := do
  let reply ← ask W (command text)
  return reply.1

def setRunningState (state : RunningState) : EngineM Unit :=
  Eff.modify fun s => { s with runningState := state }

/-! ## Stopping -/

/-- `DnsConfigurator.StopDnsForwarder`.  Waiting for the forwarder cannot throw. -/
def stopDnsForwarder : EngineM Unit := do
  let _ ← executeCommand W "pkill -TERM -x dns-forwarder"

def stopDnsConfigurator : EngineM Unit := do
  match (← Eff.get).dnsConfigurator with
  | none => return ()
  | some _ => stopDnsForwarder W

/-- Kills a process that has not exited. -/
def stopProcess (process : ProcessRole) : EngineM Unit := do
  let exited : Bool ← ask W (.hasExited process)
  if exited = false then ask W (.kill process) else return ()

/-- Stops port forwarders, one after the other. -/
def stopForwarders (keys : List ForwarderKey) : EngineM Unit :=
  Eff.forEach (fun key => stopProcess W (.forwarder key)) keys

def stopPortForwarding : EngineM Unit := do
  let s ← Eff.get
  Eff.catching (stopForwarders W s.portForwarders.items) fun _ => return ()
  Eff.modify fun s => { s with portForwarders := .empty }

/-- `EnableDistro(name, true)` -/
def enableDistro (name : String) : EngineM Unit := do
  match (← Eff.get).cts with
  | none => Eff.throw .nullReference
  | some source =>
    Eff.modify fun s =>
      { s with
        enabledDistroProxies :=
          (name, source) :: s.enabledDistroProxies.filter (·.1 ≠ name) }

/-- The command that undoes what a distribution was set up with. -/
abbrev distroRm (name : String) : Request :=
  .executeCommand ("/mnt/wsl/container-desktop/distro/wsl-distro-rm.sh \"" ++ name ++ "\"") name
    (some "root")

/-- `EnableDistro(name, false)` -/
def disableDistro (name : String) : EngineM Unit := do
  Eff.modify fun s =>
    { s with enabledDistroProxies := s.enabledDistroProxies.filter (·.1 ≠ name) }
  let reply ← ask W (distroRm name)
  if reply.1 = true then return ()
  else Eff.throw (.containerEngine ("Could not disable the distribution " ++ name))

def stopDistros : EngineM Unit := Eff.forEach (disableDistro W) cfg.enabledDistributions.items

def stopProxy : EngineM Unit := do
  if (← Eff.get).proxyProcess then stopProcess W .proxy else return ()

/-- `_cts.Cancel()` -/
def cancel : EngineM Unit := do
  match (← Eff.get).cts with
  | none => Eff.throw .nullReference
  | some source => Eff.modify fun s => { s with cancelled := source :: s.cancelled }

/-- `SpinUntil`: asks for the daemon until it is gone or the timer has run down. -/
def spinUntilStopped : Nat → EngineM Unit
  | 0 => do
    let _ ← executeCommand W "pgrep dockerd"
  | n + 1 => do
    let running ← executeCommand W "pgrep dockerd"
    if running = true then spinUntilStopped n else return ()

def stopDaemon : EngineM Unit := do
  let found ← executeCommand W "pkill -TERM dockerd"
  if found = true then
    let s ← Eff.get
    spinUntilStopped W (W.pgrepTimer (s.requests.count (command "pkill -TERM dockerd")))
  else return ()

/-- `_wslService.Terminate` -/
def terminate (distroName : String) : EngineM Unit := do
  let _ ← ask W (.terminate distroName)

/-- `Stop` without its `finally`. -/
def stopSteps : EngineM Unit := do
  setRunningState .stopping
  stopDnsConfigurator W
  stopPortForwarding W
  stopDistros W cfg
  stopProxy W
  cancel
  stopDaemon W
  terminate W containerDesktopDistroName
  terminate W containerDesktopDataDistroName

def stop : EngineM Unit := Eff.finalize (stopSteps W cfg) (setRunningState .stopped)

variable {W cfg} in
/-- `Stop` ends, however it ends, with the engine read as stopped. -/
theorem stop_snd {s : EngineState} :
    (stop W cfg s).2 = { (stopSteps W cfg s).2 with runningState := .stopped } :=
  congrArg Prod.snd (Eff.finalize_ok (Eff.modify_run _ _))

/-! ## Starting -/

/-- `_cts = new CancellationTokenSource()` -/
def createSource : EngineM Unit :=
  Eff.modify fun s => { s with cts := some s.sources, sources := s.sources + 1 }

/-- The constructor of the configurator calls `Configure`, and so does the engine. -/
def initializeDnsConfigurator : EngineM Unit := do
  stopDnsConfigurator W
  let forwarder ← ask W .configureDns
  Eff.modify fun s => { s with dnsConfigurator := some forwarder }
  let again ← ask W .configureDns
  Eff.modify fun s => { s with dnsConfigurator := some (forwarder || again) }

/-- `WaitForDataDistroInitialization`, for a timer that can be looked at `n` times before it has
run down.  After a line that starts with `tail` it is looked at twice more. -/
def waitForDataDistroInitialization : Nat → EngineM Bool
  | 0 => return true
  | n + 1 => do
    let reply ← ask W (.executeCommand "ps -o comm" containerDesktopDataDistroName none)
    if (reply.2.getLast?.map startsWithTail).getD false then return decide (n ≤ 1)
    else waitForDataDistroInitialization n

def initializeDataDistro : EngineM Unit := do
  let s ← Eff.get
  let initialized ← waitForDataDistroInitialization W (W.dataDistroTimer s.sources)
  if initialized = true then return ()
  else Eff.throw (.containerEngine "Could not initialize data distribution.")

def initializePortForwardListener : EngineM Unit := do
  Eff.modify fun s => { s with portforwardListenerCts := s.cts }
  let _ ← executeCommand W "cp /usr/local/bin/docker-proxy-shim /usr/local/bin/docker-proxy"

def updateDaemonConfig : EngineM Unit := do
  let _ ← executeCommand W
    ("cat <<EOF > /etc/docker/daemon.json\n" ++ cfg.daemonConfig.replace "\r\n" "\n" ++ "\nEOF\n")

/-- `Path.GetFileName`: the text after the last separator. -/
def getFileName (path : String) : String :=
  String.ofList (path.toList.reverse.takeWhile fun c => c ≠ '/' ∧ c ≠ '\\').reverse

def updateCertificates : EngineM Unit := do
  let reply ← ask W (command "ls -1 /usr/local/share/ca-certificates/cd-*.crt")
  let existingCerts := if reply.1 then reply.2.map getFileName else []
  Eff.forEach (fun removedCert => do
      let _ ← executeCommand W ("rm /usr/local/share/ca-certificates/" ++ removedCert))
    (existingCerts.filter (· ∉ cfg.certificates))
  Eff.forEach (fun addedCert => do
      let pem : String ← ask W (.getPem addedCert)
      let _ ← executeCommand W
        ("cat <<EOF > /usr/local/share/ca-certificates/" ++ addedCert ++ "\n" ++ pem ++ "\nEOF\n"))
    (cfg.certificates.filter (· ∉ existingCerts))
  let _ ← executeCommand W "update-ca-certificates"

def initializeAndStartDaemon (certPath : String) : EngineM Unit := do
  let started ← executeCommand W ("/usr/local/bin/wsl-init.sh \"" ++ certPath ++ "\"")
  if started = true then return ()
  else Eff.throw (.containerEngine "Could not initialize and start the daemon.")

/-- Kills a proxy that is left from before. -/
def stopExistingProxy : EngineM Unit := do
  let existing : Bool ← ask W (.getProcessesByName "container-desktop-proxy-windows-amd64")
  if existing = true then stopProcess W .existingProxy else return ()

/-- `StartProxy`.  The arguments are the fixed ones and the three files below `localCertsPath`. -/
def startProxy (localCertsPath : String) : EngineM Unit := do
  stopExistingProxy W
  ask W (.startProcess .proxy
    ["--listen-address", "npipe:////./pipe/docker_engine", "--target-address",
      "https://localhost:2376", "--tls-key", localCertsPath ++ "key.pem", "--tls-cert",
      localCertsPath ++ "cert.pem", "--tls-ca", localCertsPath ++ "ca.pem"])
  Eff.modify fun s => { s with proxyProcess := true }
  let exited : Bool ← ask W (.waitForExit .proxy)
  if exited = true then Eff.throw (.containerEngine "Failed to start the proxy.") else return ()

def initializeDistros : EngineM Unit := Eff.forEach enableDistro cfg.enabledDistributions.items

/-- One attempt of `Start` up to its `catch`.  Warming up the daemon is a task of its own. -/
def startSteps (localCertsPath certPath : String) : EngineM Unit := do
  createSource
  setRunningState .starting
  terminate W containerDesktopDistroName
  initializeDnsConfigurator W
  initializeDataDistro W
  initializePortForwardListener W
  updateDaemonConfig W cfg
  updateCertificates W cfg
  initializeAndStartDaemon W certPath
  startProxy W localCertsPath
  initializeDistros cfg
  setRunningState .running

/-- One attempt of `Start`.  A failed one stops the engine. -/
def startAttempt (localCertsPath certPath : String) : EngineM Unit :=
  Eff.catching (startSteps W cfg localCertsPath certPath) fun ex => do
    Eff.catching (stop W cfg) fun stopEx => Eff.throw (.aggregate ex stopEx)
    Eff.throw ex

/-- `WaitAndRetry`: after an exception, at most `n` more attempts. -/
def retry : Nat → EngineM Unit → EngineM Unit
  | 0, attempt => attempt
  | n + 1, attempt => Eff.catching attempt fun _ => retry n attempt

def start (localCertsPath certPath : String) : EngineM Unit :=
  retry 3 (startAttempt W cfg localCertsPath certPath)

def restart (localCertsPath certPath : String) : EngineM Unit := do
  stop W cfg
  start W cfg localCertsPath certPath

end Engine

/-! ## What was requested -/

/-- The request `r` was made between two states. -/
def Requested (s s' : EngineState) (r : Request) : Prop := s.requests.count r < s'.requests.count r

/-- A world in which nothing throws, commands print nothing and processes run. -/
def calm : World where
  reply
    | _, .executeCommand .. => .ok (true, [])
    | _, .terminate _ => .ok true
    | _, .configureDns => .ok false
    | _, .getPem _ => .ok ""
    | _, .getProcessesByName _ => .ok false
    | _, .startProcess .. => .ok ()
    | _, .waitForExit _ => .ok false
    | _, .hasExited _ => .ok false
    | _, .kill _ => .ok ()
    | _, .getAllNetworkInterfaces => .ok []
    | _, .getIPProperties _ => .ok [⟨"192.168.1.10", true⟩]
  dataDistroTimer _ := 0
  pgrepTimer _ := 0
  parseAddress := some

end ContainerDesktop.Services
