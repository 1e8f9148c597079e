import ContainerDesktop.Services.Engine

/-!
# What the steps of the engine leave alone

Most steps of `Start` and `Stop` make requests and change the fields for the
processes, the DNS configurator, the distributions and the running state.  An
observation that is blind to these (`Ignores`) is the same before and after each
of them, whatever throws: the list of ports is one, the fields with the
cancellation sources are another.
-/

namespace ContainerDesktop.Services

/-- The observation does not depend on what most steps change. -/
structure Ignores {β : Type} (p : EngineState → β) : Prop where
  runningState : ∀ s x, p { s with runningState := x } = p s
  enabledDistroProxies : ∀ s x, p { s with enabledDistroProxies := x } = p s
  portForwarders : ∀ s x, p { s with portForwarders := x } = p s
  proxyProcess : ∀ s x, p { s with proxyProcess := x } = p s
  dnsConfigurator : ∀ s x, p { s with dnsConfigurator := x } = p s
  requests : ∀ s x, p { s with requests := x } = p s

namespace Ignores

open Eff (Keeps)

variable {W : World} {cfg : Settings} {β : Type} {p : EngineState → β}

theorem ask (hp : Ignores p) (r : Request) : Keeps p (ask W r) := ⟨fun s => hp.requests s _⟩

theorem executeCommand (hp : Ignores p) (text : String) : Keeps p (executeCommand W text) :=
  Eff.moves_bind (hp.ask _) fun _ => Eff.moves_pure _

/-- A command whose outcome is not looked at. -/
theorem command (hp : Ignores p) (text : String) :
    Keeps p (Services.executeCommand W text >>= fun _ => (pure () : EngineM Unit)) :=
  Eff.moves_bind (hp.executeCommand _) fun _ => Eff.moves_pure _

theorem setRunningState (hp : Ignores p) (state : RunningState) : Keeps p (setRunningState state) :=
  ⟨fun s => hp.runningState s _⟩

/-! ## Steps of `Stop` -/

theorem stopDnsConfigurator (hp : Ignores p) : Keeps p (stopDnsConfigurator W) := by
  refine Eff.moves_bind Eff.moves_get fun s => ?_
  cases s.dnsConfigurator with
  | none => exact Eff.moves_pure ()
  | some _ => exact hp.command _

theorem stopProcess (hp : Ignores p) (process : ProcessRole) : Keeps p (stopProcess W process) := by
  refine Eff.moves_bind (hp.ask _) fun exited => ?_
  split
  · exact hp.ask _
  · exact Eff.moves_pure ()

theorem stopPortForwarding (hp : Ignores p) : Keeps p (stopPortForwarding W) := by
  refine Eff.moves_bind Eff.moves_get fun s => ?_
  have hstop : Keeps p (stopForwarders W s.portForwarders.items) :=
    Eff.moves_forEach _ fun key _ => hp.stopProcess _
  exact Eff.moves_bind (Eff.moves_catching hstop fun _ => Eff.moves_pure ()) fun _ =>
    ⟨fun s => hp.portForwarders s _⟩

theorem disableDistro (hp : Ignores p) (name : String) : Keeps p (disableDistro W name) := by
  refine Eff.moves_bind ⟨fun s => hp.enabledDistroProxies s _⟩ fun _ =>
    Eff.moves_bind (hp.ask _) fun reply => ?_
  split
  · exact Eff.moves_pure ()
  · exact Eff.moves_throw _

theorem stopDistros (hp : Ignores p) : Keeps p (stopDistros W cfg) :=
  Eff.moves_forEach _ fun name _ => hp.disableDistro name

theorem stopProxy (hp : Ignores p) : Keeps p (stopProxy W) := by
  refine Eff.moves_bind Eff.moves_get fun s => ?_
  split
  · exact hp.stopProcess _
  · exact Eff.moves_pure ()

theorem spinUntilStopped (hp : Ignores p) : ∀ n : Nat, Keeps p (spinUntilStopped W n) := by
  intro n
  induction n with
  | zero => exact hp.command _
  | succ n ih =>
    refine Eff.moves_bind (hp.executeCommand _) fun running => ?_
    split
    · exact ih
    · exact Eff.moves_pure ()

theorem stopDaemon (hp : Ignores p) : Keeps p (stopDaemon W) := by
  refine Eff.moves_bind (hp.executeCommand _) fun found => ?_
  split
  · exact Eff.moves_bind Eff.moves_get fun s => hp.spinUntilStopped _
  · exact Eff.moves_pure ()

theorem terminate (hp : Ignores p) (distroName : String) : Keeps p (terminate W distroName) :=
  Eff.moves_bind (hp.ask _) fun _ => Eff.moves_pure _

/-! ## Steps of `Start` -/

theorem initializeDnsConfigurator (hp : Ignores p) : Keeps p (initializeDnsConfigurator W) := by
  refine Eff.moves_bind hp.stopDnsConfigurator fun _ => ?_
  refine Eff.moves_bind (hp.ask _) fun _ => Eff.moves_bind
    ⟨fun s => hp.dnsConfigurator s _⟩ fun _ => ?_
  exact Eff.moves_bind (hp.ask _) fun _ => ⟨fun s => hp.dnsConfigurator s _⟩

theorem waitForDataDistroInitialization (hp : Ignores p) :
    ∀ n : Nat, Keeps p (waitForDataDistroInitialization W n) := by
  intro n
  induction n with
  | zero => exact Eff.moves_pure _
  | succ n ih =>
    refine Eff.moves_bind (hp.ask _) fun reply => ?_
    split
    · exact Eff.moves_pure _
    · exact ih

theorem initializeDataDistro (hp : Ignores p) : Keeps p (initializeDataDistro W) := by
  refine Eff.moves_bind Eff.moves_get fun s => ?_
  refine Eff.moves_bind (hp.waitForDataDistroInitialization _) fun initialized => ?_
  split
  · exact Eff.moves_pure ()
  · exact Eff.moves_throw _

theorem updateCertificates (hp : Ignores p) : Keeps p (updateCertificates W cfg) := by
  refine Eff.moves_bind (hp.ask _) fun reply => ?_
  refine Eff.moves_bind (Eff.moves_forEach _ fun removedCert _ => hp.command _) fun _ => ?_
  refine Eff.moves_bind (Eff.moves_forEach _ fun addedCert _ => ?_) fun _ => hp.command _
  exact Eff.moves_bind (hp.ask _) fun pem => hp.command _

theorem initializeAndStartDaemon (hp : Ignores p) (certPath : String) :
    Keeps p (initializeAndStartDaemon W certPath) := by
  refine Eff.moves_bind (hp.executeCommand _) fun started => ?_
  split
  · exact Eff.moves_pure ()
  · exact Eff.moves_throw _

theorem startProxy (hp : Ignores p) (localCertsPath : String) :
    Keeps p (startProxy W localCertsPath) := by
  have hexisting : Keeps p (stopExistingProxy W) := by
    refine Eff.moves_bind (hp.ask _) fun existing => ?_
    split
    · exact hp.stopProcess _
    · exact Eff.moves_pure ()
  refine Eff.moves_bind hexisting fun _ => Eff.moves_bind (hp.ask _) fun _ => ?_
  refine Eff.moves_bind ⟨fun s => hp.proxyProcess s _⟩ fun _ => Eff.moves_bind (hp.ask _)
    fun exited => ?_
  split
  · exact Eff.moves_throw _
  · exact Eff.moves_pure ()

theorem enableDistro (hp : Ignores p) (name : String) : Keeps p (enableDistro name) := by
  refine Eff.moves_bind Eff.moves_get fun s => ?_
  cases s.cts with
  | none => exact Eff.moves_throw _
  | some source => exact ⟨fun s => hp.enabledDistroProxies s _⟩

theorem initializeDistros (hp : Ignores p) : Keeps p (initializeDistros cfg) :=
  Eff.moves_forEach _ fun name _ => hp.enableDistro name

end Ignores

end ContainerDesktop.Services
