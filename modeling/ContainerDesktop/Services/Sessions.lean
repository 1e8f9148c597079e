import ContainerDesktop.Histories
import ContainerDesktop.Services.Frame
import ContainerDesktop.Services.PortMessages
import ContainerDesktop.Services.Shutdown

/-!
# Sessions of the engine

What the engine does between two starts is a session.  `Stop` takes the port
forwarders off their table, but neither `Stop` nor `Start` touches the list of
ports: a port that is open when the engine stops is on the list of the next
session, and enabling an interface forwards it.

`ports_iff` says of every run that the list is right in all states exactly if
every start that succeeds finds it empty.
-/

namespace ContainerDesktop.Services

open Eff (Moves)

section Keeps

variable {W : World} {cfg : Settings}

/-! ## `Stop` and `Start` do not touch the list -/

theorem ignores_ports : Ignores (·.ports) :=
  ⟨fun _ _ => rfl, fun _ _ => rfl, fun _ _ => rfl, fun _ _ => rfl, fun _ _ => rfl, fun _ _ => rfl⟩

theorem keeps_modify {f : EngineState → EngineState} (h : ∀ s, (f s).ports = s.ports) :
    Eff.Keeps (·.ports) (Eff.modify f : EngineM Unit) := ⟨h⟩

theorem keeps_cancel : Eff.Keeps (·.ports) cancel := by
  refine Eff.moves_bind Eff.moves_get fun s => ?_
  cases s.cts with
  | none => exact Eff.moves_throw _
  | some source => exact keeps_modify fun _ => rfl

/-- `Stop` leaves the list of ports as it is. -/
theorem keeps_stop : Eff.Keeps (·.ports) (stop W cfg) := by
  have hp := ignores_ports
  refine Eff.moves_finalize ?_ (hp.setRunningState _)
  refine Eff.moves_bind (hp.setRunningState _) fun _ => ?_
  refine Eff.moves_bind hp.stopDnsConfigurator fun _ => ?_
  refine Eff.moves_bind hp.stopPortForwarding fun _ => ?_
  refine Eff.moves_bind hp.stopDistros fun _ => ?_
  refine Eff.moves_bind hp.stopProxy fun _ => ?_
  refine Eff.moves_bind keeps_cancel fun _ => ?_
  refine Eff.moves_bind hp.stopDaemon fun _ => ?_
  exact Eff.moves_bind (hp.terminate _) fun _ => hp.terminate _

theorem keeps_startSteps (localCertsPath certPath : String) :
    Eff.Keeps (·.ports) (startSteps W cfg localCertsPath certPath) := by
  have hp := ignores_ports
  refine Eff.moves_bind (keeps_modify fun _ => rfl) fun _ => ?_
  refine Eff.moves_bind (hp.setRunningState _) fun _ => ?_
  refine Eff.moves_bind (hp.terminate _) fun _ => ?_
  refine Eff.moves_bind hp.initializeDnsConfigurator fun _ => ?_
  refine Eff.moves_bind hp.initializeDataDistro fun _ => ?_
  refine Eff.moves_bind (Eff.moves_bind (keeps_modify fun _ => rfl) fun _ =>
    hp.command _) fun _ => ?_
  refine Eff.moves_bind (hp.command _) fun _ => ?_
  refine Eff.moves_bind hp.updateCertificates fun _ => ?_
  refine Eff.moves_bind (hp.initializeAndStartDaemon _) fun _ => ?_
  refine Eff.moves_bind (hp.startProxy _) fun _ => ?_
  exact Eff.moves_bind hp.initializeDistros fun _ => hp.setRunningState _

theorem keeps_retry {attempt : EngineM Unit} (h : Eff.Keeps (·.ports) attempt) :
    ∀ n : Nat, Eff.Keeps (·.ports) (retry n attempt) := by
  intro n
  induction n with
  | zero => exact h
  | succ n ih => exact Eff.moves_catching h fun _ => ih

/-- `Start` leaves the list of ports as it is, whichever of its attempts fail. -/
theorem keeps_start (localCertsPath certPath : String) :
    Eff.Keeps (·.ports) (start W cfg localCertsPath certPath) := by
  refine keeps_retry (Eff.moves_catching (keeps_startSteps _ _) fun ex => ?_) 3
  exact Eff.moves_bind (Eff.moves_catching keeps_stop fun _ => Eff.moves_throw _) fun _ =>
    Eff.moves_throw _

end Keeps

/-! ## Runs -/

inductive Operation where
  | start (cfg : Settings) (localCertsPath certPath : String)
  | stop (cfg : Settings)
  | restart (cfg : Settings) (localCertsPath certPath : String)
  | message (cfg : Settings) (m : PortMessage)

namespace Operation

def Starts : Operation → Prop
  | .start .. | .restart .. => True
  | .stop _ | .message .. => False

/-- The engine after an operation, which may have thrown. -/
def perform (W : World) : Operation → EngineState → EngineState
  | .start cfg localCertsPath certPath, s => (Services.start W cfg localCertsPath certPath s).2
  | .stop cfg, s => (Services.stop W cfg s).2
  | .restart cfg localCertsPath certPath, s => (Services.restart W cfg localCertsPath certPath s).2
  | .message cfg m, s => (forwardPort W cfg m.line s).2

/-- Messages are for `0.0.0.0`, and come while the engine runs. -/
def Allowed (s : EngineState) : Operation → Prop
  | .message _ m => s.runningState = .running ∧ m.args.Recognised ∧ m.args.hostIp = "0.0.0.0"
  | .start .. | .stop _ | .restart .. => True

end Operation

/-- The messages since the latest start; the last operation comes first. -/
def sinceStart : List Operation → List (Mark PortAndProtocol)
  | [] => []
  | .message _ m :: ops => m.mark :: sinceStart ops
  | .stop _ :: ops => sinceStart ops
  | .start .. :: _ | .restart .. :: _ => []

section Runs

variable (W : World)

/-- The engine after a run, the last operation first. -/
def after : List Operation → EngineState
  | [] => .init
  | op :: ops => op.perform W (after ops)

def IsRun : List Operation → Prop
  | [] => True
  | op :: ops => op.Allowed (after W ops) ∧ IsRun ops

/-- While the engine runs, the list holds the ports opened in this session and not closed since. -/
def ListsOpenPorts (ops : List Operation) : Prop :=
  (after W ops).runningState = .running →
    ∀ portAndProto, portAndProto ∈ (after W ops).ports ↔
    Mark.OpenAfter (sinceStart ops) portAndProto

/-- While the engine runs, enabling an interface starts forwarders for these ports only. -/
def ForwardsOpenPorts (ops : List Operation) : Prop :=
  (after W ops).runningState = .running → ∀ networkInterface key args,
    Requested (after W ops) (enablePortForwardingForAll W networkInterface true (after W ops)).2
      (.startProcess (.forwarder key) args) →
    Mark.OpenAfter (sinceStart ops) ⟨key.port, key.protocol⟩

/-- **Every start that succeeds begins with an empty list.** -/
def StartsEmpty (ops : List Operation) : Prop :=
  ∀ op ops', op :: ops' <:+ ops → op.Starts → (after W (op :: ops')).runningState = .running →
    (after W ops').ports = []

variable {W}

theorem perform_ports {op : Operation} (h : op.Starts) (s : EngineState) :
    (op.perform W s).ports = s.ports := by
  cases op with
  | start cfg localCertsPath certPath => exact (keeps_start localCertsPath certPath).run s
  | restart cfg localCertsPath certPath =>
    exact (Eff.moves_bind keeps_stop fun _ => keeps_start localCertsPath certPath).run s
  | stop cfg => exact absurd h id
  | message cfg m => exact absurd h id

theorem sinceStart_cons_of_starts {op : Operation} (h : op.Starts) (ops : List Operation) :
    sinceStart (op :: ops) = [] := by
  cases op with
  | start cfg localCertsPath certPath => rfl
  | restart cfg localCertsPath certPath => rfl
  | stop cfg => exact absurd h id
  | message cfg m => exact absurd h id

theorem message_ports {cfg : Settings} {m : PortMessage} {ops : List Operation}
    (h : (Operation.message cfg m).Allowed (after W ops)) :
    (after W (.message cfg m :: ops)).ports = Mark.apply (after W ops).ports m.mark :=
  (forwardPort_line h.2.1 _).2.trans (if_pos h.2.2)

/-- The list has no port twice. -/
theorem nodup_ports : ∀ {ops : List Operation}, IsRun W ops → (after W ops).ports.Nodup := by
  intro ops
  induction ops with
  | nil => intro _; exact List.nodup_nil
  | cons op ops ih =>
    intro h
    obtain ⟨hallowed, hrun⟩ := h
    have hstart : op.Starts → (after W (op :: ops)).ports = (after W ops).ports :=
      fun hop => perform_ports hop _
    cases op with
    | start cfg localCertsPath certPath => exact (hstart trivial).symm ▸ ih hrun
    | restart cfg localCertsPath certPath => exact (hstart trivial).symm ▸ ih hrun
    | stop cfg =>
      have hkeeps : (after W (.stop cfg :: ops)).ports = (after W ops).ports := keeps_stop.run _
      exact hkeeps ▸ ih hrun
    | message cfg m =>
      rw [message_ports hallowed]
      exact Mark.nodup_apply (ih hrun) m.mark

/-- One operation keeps the list right, if it is no start or begins with an empty list. -/
theorem listsOpenPorts_cons {op : Operation} {ops : List Operation} (hrun : IsRun W (op :: ops))
    (hlists : ListsOpenPorts W ops)
    (hempty : op.Starts → (after W (op :: ops)).runningState = .running →
      (after W ops).ports = []) :
    ListsOpenPorts W (op :: ops) := by
  intro hrunning portAndProto
  have hstart : op.Starts → (portAndProto ∈ (after W (op :: ops)).ports ↔
      Mark.OpenAfter (sinceStart (op :: ops)) portAndProto) := by
    intro hop
    rw [after, perform_ports hop, hempty hop hrunning, sinceStart_cons_of_starts hop]
    exact iff_of_false List.not_mem_nil (Mark.not_openAfter_nil _)
  cases op with
  | start cfg localCertsPath certPath => exact hstart trivial
  | restart cfg localCertsPath certPath => exact hstart trivial
  | stop cfg =>
    have hstopped : (after W (.stop cfg :: ops)).runningState = .stopped := by
      rw [after, Operation.perform, stop_snd]
    exact nomatch hstopped.symm.trans hrunning
  | message cfg m =>
    rw [message_ports hrun.1]
    exact Mark.mem_apply_iff (nodup_ports hrun.2) (hlists hrun.1.1) m.mark portAndProto

theorem startsEmpty_nil : StartsEmpty W [] := throughout_nil

theorem startsEmpty_cons {op : Operation} {ops : List Operation} :
    StartsEmpty W (op :: ops) ↔
      (op.Starts → (after W (op :: ops)).runningState = .running → (after W ops).ports = []) ∧
        StartsEmpty W ops := throughout_cons

theorem listsOpenPorts_of_startsEmpty : ∀ {ops : List Operation}, IsRun W ops → StartsEmpty W ops →
    ListsOpenPorts W ops := by
  intro ops
  induction ops with
  | nil => intro _ _ h; exact nomatch h
  | cons op ops ih =>
    intro hrun hempty
    obtain ⟨hop, hops⟩ := startsEmpty_cons.mp hempty
    exact listsOpenPorts_cons hrun (ih hrun.2 hops) hop

/-- A list that is right after a start was empty before it. -/
theorem ports_eq_nil {op : Operation} {ops : List Operation} (hop : op.Starts)
    (hlists : ListsOpenPorts W (op :: ops))
    (hrunning : (after W (op :: ops)).runningState = .running) : (after W ops).ports = [] := by
  refine List.eq_nil_iff_forall_not_mem.mpr fun portAndProto hmem => ?_
  have hports : portAndProto ∈ (after W (op :: ops)).ports := (perform_ports hop _).symm ▸ hmem
  have hopen := (hlists hrunning portAndProto).mp hports
  rw [sinceStart_cons_of_starts hop] at hopen
  exact Mark.not_openAfter_nil _ hopen

theorem forwardsOpenPorts {ops : List Operation} (h : ListsOpenPorts W ops) :
    ForwardsOpenPorts W ops :=
  fun hrunning _ _ _ hrequested => (h hrunning _).mp
    (enablePortForwardingForAll_requested hrequested)

theorem isRun_of_suffix {ops' : List Operation} :
    ∀ {ops : List Operation}, ops' <:+ ops → IsRun W ops → IsRun W ops' := by
  intro ops
  induction ops with
  | nil => intro h _; rw [List.suffix_nil.mp h]; exact trivial
  | cons op ops ih =>
    intro h hrun
    obtain rfl | h := List.suffix_cons_iff.mp h
    · exact hrun
    · exact ih h hrun.2

/-- **In every state of a run the list of ports is right, and enabling an interface forwards no port
of an earlier session, exactly if every start that succeeds begins with an empty list.** -/
theorem ports_iff {ops : List Operation} (hrun : IsRun W ops) :
    (∀ ops', ops' <:+ ops → ListsOpenPorts W ops' ∧ ForwardsOpenPorts W ops') ↔
      StartsEmpty W ops := by
  refine ⟨fun h op ops' hsuffix hop => ports_eq_nil hop (h _ hsuffix).1, fun h ops' hsuffix => ?_⟩
  have hlists : ListsOpenPorts W ops' :=
    listsOpenPorts_of_startsEmpty (isRun_of_suffix hsuffix hrun)
    fun op ops'' hsuffix' => h op ops'' (hsuffix'.trans hsuffix)
  exact ⟨hlists, forwardsOpenPorts hlists⟩

end Runs

/-! ### Runs in a calm world -/

def noDistributions : Settings where
  enabledDistributions := .empty
  portForwardInterfaces := []
  daemonConfig := "{}"
  certificates := []

def startCalmly : Operation := .start noDistributions "C:\\certs\\" "/mnt/host/c/certs"

def webServer : ProxyArgs := ⟨"tcp", "0.0.0.0", 8080, "172.17.0.2", 80⟩

theorem recognised_webServer : webServer.Recognised := ⟨.inl rfl, .inl rfl, by decide⟩

/-- A port is opened and closed. -/
def oneSession : List Operation :=
  [.message noDistributions ⟨false, webServer⟩, .message noDistributions
    ⟨true, webServer⟩, startCalmly]

theorem isRun_oneSession : IsRun calm oneSession := by
  refine ⟨⟨?_, recognised_webServer, rfl⟩, ⟨?_, recognised_webServer, rfl⟩, trivial, trivial⟩
  · decide +kernel
  · decide +kernel

theorem startsEmpty_oneSession : StartsEmpty calm oneSession := by
  refine startsEmpty_cons.mpr ⟨fun h => h.elim, startsEmpty_cons.mpr ⟨fun h => h.elim, ?_⟩⟩
  exact startsEmpty_cons.mpr ⟨fun _ _ => rfl, startsEmpty_nil⟩

theorem ports_oneSession : ListsOpenPorts calm oneSession ∧ ForwardsOpenPorts calm oneSession :=
  (ports_iff isRun_oneSession).mpr startsEmpty_oneSession oneSession (List.suffix_refl _)

/-- A port is opened, and the engine is stopped and started. -/
def twoSessions : List Operation :=
  [startCalmly, .stop noDistributions, .message noDistributions ⟨true, webServer⟩, startCalmly]

/-- The port of the first session is on the list of the second, and is forwarded there. -/
theorem start_keeps_port :
    IsRun calm twoSessions ∧ (after calm twoSessions).runningState = .running ∧
      webServer.portAndProto ∈ (after calm twoSessions).ports ∧
      ¬ Mark.OpenAfter (sinceStart twoSessions) webServer.portAndProto ∧
      ¬ ListsOpenPorts calm twoSessions ∧ ¬ ForwardsOpenPorts calm twoSessions := by
  have hrun : IsRun calm twoSessions := by
    refine ⟨trivial, trivial, ⟨?_, recognised_webServer, rfl⟩, trivial, trivial⟩
    decide +kernel
  have hrunning : (after calm twoSessions).runningState = .running := by decide +kernel
  have hmem : webServer.portAndProto ∈ (after calm twoSessions).ports := by decide +kernel
  have hnot : ¬ Mark.OpenAfter (sinceStart twoSessions) webServer.portAndProto :=
    Mark.not_openAfter_nil _
  have hrequested : Requested (after calm twoSessions)
      (enablePortForwardingForAll calm ⟨"eth0", false⟩ true (after calm twoSessions)).2
      (.startProcess (.forwarder ⟨"192.168.1.10", 8080, "tcp"⟩)
        ["-proto", "tcp", "-frontend-ip", "192.168.1.10", "-frontend-port", "8080",
          "-backend-ip", "", "-backend-port", "8080"]) := by
    unfold Requested
    decide +kernel
  exact ⟨hrun, hrunning, hmem, hnot, fun h => hnot ((h hrunning _).mp hmem),
    fun h => hnot (h hrunning _ _ _ hrequested)⟩

end ContainerDesktop.Services
