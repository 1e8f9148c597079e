import ContainerDesktop.Services.ForwarderTable
import Mathlib.Data.Fintype.EquivFin

/-!
# What a line can do at most

Whatever happens outside of the engine, a line changes the list of ports as it says,
and forwarders of its port only (`Acts`).  It reaches none of them if no interface is
selected for it or the engine was never configured (`Idle`).  Otherwise there is a
network on which it reaches a given address (`Network.single`), and if the machine
answers nothing (`World.down`) no forwarder is touched.
-/

namespace ContainerDesktop.Services

open Eff (Moves)

/-- A forwarder for `p` may be started. -/
def Starts (p : PortAndProtocol) (enabled : Bool) : Prop := enabled = true ∧ p.port ≤ 65535

/-- Forwarders of `p` are stopped at most, and started if `p` is opened. -/
structure Acts (p : PortAndProtocol) (enabled : Bool) (s s' : EngineState) : Prop where
  ports : s'.ports = s.ports
  others : ∀ key, key.portAndProto ≠ p → (key ∈ s'.portForwarders.items ↔
    key ∈ s.portForwarders.items)
  fresh : ∀ key ∈ s'.portForwarders.items, key ∉ s.portForwarders.items → Starts p enabled
  same : ¬ Starts p enabled → (∀ key ∈ s.portForwarders.items, key.portAndProto ≠ p) →
    s'.portForwarders = s.portForwarders
  started : ¬ Starts p enabled → ∀ key args,
    s'.requests.count (.startProcess (.forwarder key) args)
      = s.requests.count (.startProcess (.forwarder key) args)

instance (p : PortAndProtocol) (enabled : Bool) : IsPreorder EngineState (Acts p enabled) where
  refl _ := ⟨rfl, fun _ _ => Iff.rfl, fun _ hkey hnot => absurd hkey hnot, fun _ _ => rfl,
    fun _ _ _ => rfl⟩
  trans s s' s'' h h' := by
    refine ⟨h'.ports.trans h.ports, fun key hkey => (h'.others key hkey).trans (h.others key hkey),
      fun key hkey hnot => ?_, fun hno hkeys => ?_,
      fun hno key args => (h'.started hno key args).trans (h.started hno key args)⟩
    · by_cases hmem : key ∈ s'.portForwarders.items
      · exact h.fresh key hmem hnot
      · exact h'.fresh key hkey hmem
    · have hfirst := h.same hno hkeys
      exact (h'.same hno (hfirst.symm ▸ hkeys)).trans hfirst

section Acts

variable {W : World} {cfg : Settings} {p : PortAndProtocol} {enabled : Bool}

theorem acts_ask {r : Request}
    (h : ∀ key args, r = .startProcess (.forwarder key) args → Starts p enabled) :
    Moves (Acts p enabled) (ask W r) := by
  constructor
  intro s
  refine ⟨rfl, fun _ _ => Iff.rfl, fun _ hkey hnot => absurd hkey hnot, fun _ _ => rfl,
    fun hno key args => ?_⟩
  exact List.count_cons_of_ne fun he => hno (h key args he)

/-- A request that starts no process. -/
theorem acts_ask_other {r : Request} (h : ∀ process args, r ≠ .startProcess process args) :
    Moves (Acts p enabled) (ask W r) :=
  acts_ask fun key args he => absurd he (h (.forwarder key) args)

theorem acts_targetAddress : Moves (Acts p enabled) (targetAddress W) := by
  refine Eff.moves_bind Eff.moves_get fun s => ?_
  cases s.dnsConfigurator with
  | none => exact Eff.moves_throw _
  | some _ =>
    refine Eff.moves_bind ?_ fun text => ?_
    · exact Eff.moves_bind (acts_ask_other (by simp)) fun _ => Eff.moves_pure _
    · cases text with
      | none => exact Eff.moves_throw _
      | some _ => exact Eff.moves_ofExcept _

theorem acts_removeForwarder {key : ForwarderKey} (hkey : key.portAndProto = p) :
    Moves (Acts p enabled) (removeForwarder W key) := by
  refine Eff.moves_bind Eff.moves_get fun s => ?_
  split
  · refine Eff.moves_bind (Eff.moves_bind (acts_ask_other (by simp)) fun exited => ?_) fun _ => ?_
    · split
      · exact acts_ask_other (by simp)
      · exact Eff.moves_pure ()
    · constructor
      intro s
      refine ⟨rfl, fun key' hother => ?_, fun key' hmem hnot => ?_, fun _ hkeys => ?_,
        fun _ _ _ => rfl⟩
      · refine Distinct.mem_remove.trans (and_iff_right ?_)
        rintro rfl
        exact hother hkey
      · exact absurd (Distinct.mem_remove.mp hmem).2 hnot
      · exact Distinct.remove_of_not_mem fun hmem => hkeys key hmem hkey
  · exact Eff.moves_pure ()

theorem acts_addForwarder {key : ForwarderKey} (hkey : key.portAndProto = p) (target : String) :
    Moves (Acts p true) (addForwarder W key target) := by
  by_cases hport : key.port ≤ 65535
  · have hstarts : Starts p true := ⟨rfl, hkey ▸ hport⟩
    have hinsert : Moves (Acts p true) (Eff.modify fun s : EngineState =>
        { s with portForwarders := s.portForwarders.insert key } : EngineM Unit) := by
      constructor
      intro s
      refine ⟨rfl, fun key' hother => ?_, fun _ _ _ => hstarts, fun hno => absurd hstarts hno,
        fun hno => absurd hstarts hno⟩
      refine Distinct.mem_insert.trans (or_iff_right ?_)
      rintro rfl
      exact hother hkey
    refine Eff.moves_bind ?_ fun _ => hinsert
    rw [startForwarder, if_pos hport]
    refine Eff.moves_bind (acts_ask fun _ _ _ => hstarts) fun _ => ?_
    refine Eff.moves_bind (acts_ask_other (by simp)) fun exited => ?_
    split
    · exact Eff.moves_throw _
    · exact Eff.moves_pure ()
  · constructor
    intro s
    rw [addForwarder_great key hport target s]
    exact refl_of (Acts p true) s

theorem acts_forwardOn (target address : String) :
    Moves (Acts p enabled) (forwardOn W target enabled p address) := by
  refine Eff.moves_catching (Eff.moves_bind (acts_removeForwarder rfl) fun _ => ?_)
    fun _ => Eff.moves_pure ()
  cases enabled with
  | true =>
    have hkey : (⟨address, p.port, p.protocol⟩ : ForwarderKey).portAndProto = p := rfl
    exact acts_addForwarder hkey target
  | false => exact Eff.moves_pure ()

theorem acts_enablePortForwardingInterface (networkInterface : NetworkInterface) :
    Moves (Acts p enabled) (enablePortForwardingInterface W networkInterface [p] enabled) := by
  refine Eff.moves_bind (acts_ask_other (by simp)) fun unicast => ?_
  refine Eff.moves_bind acts_targetAddress fun target => ?_
  refine Eff.moves_forEach [p] fun q hq => ?_
  obtain rfl := List.mem_singleton.mp hq
  exact Eff.moves_forEach _ fun address _ => acts_forwardOn target address

theorem acts_forwardToInterfaces :
    Moves (Acts p enabled) (forwardToInterfaces W cfg p enabled) := by
  rw [forwardToInterfaces]
  split
  · exact Eff.moves_pure ()
  · refine Eff.moves_bind (acts_ask_other (by simp)) fun all => ?_
    exact Eff.moves_forEach _ fun networkInterface _ => acts_enablePortForwardingInterface _

theorem acts_forwardToLoopback : Moves (Acts p enabled) (forwardToLoopback W p enabled) := by
  refine Eff.moves_bind (acts_ask_other (by simp)) fun all => ?_
  split
  · exact Eff.moves_throw _
  · exact acts_enablePortForwardingInterface _

/-- **What a line does at most.** -/
theorem forwardPort_acts {line : String} (h : heard line = some (enabled, p)) (cfg : Settings)
    (s : EngineState) :
    Acts p enabled { s with ports := Mark.apply s.ports (portMark enabled p) }
      (forwardPort W cfg line s).2 := by
  have hacts : Moves (Acts p enabled) (forwardToInterfaces W cfg p enabled >>= fun _ =>
      if p.protocol = "udp" then forwardToLoopback W p enabled else pure ()) := by
    refine Eff.moves_bind acts_forwardToInterfaces fun _ => ?_
    split
    · exact acts_forwardToLoopback
    · exact Eff.moves_pure ()
  rw [forwardPort_snd, forwardPortSteps_heard h, Eff.bind_ok (updatePorts_mark p enabled s)]
  exact hacts.run _

theorem forwardPort_ports {line : String} (h : heard line = some (enabled, p)) (s : EngineState) :
    (forwardPort W cfg line s).2.ports = Mark.apply s.ports (portMark enabled p) :=
  (forwardPort_acts h cfg s).ports

end Acts

/-! ## Out of reach -/

/-- No interface is looked at for the port, or the engine has no DNS configurator to ask for the
address behind the forwarders. -/
def OutOfReach (cfg : Settings) (p : PortAndProtocol) (s : EngineState) : Prop :=
  (cfg.portForwardInterfaces = [] ∧ p.protocol ≠ "udp") ∨ ¬ s.Configured

/-- No forwarder is stopped or started. -/
structure Rests (s s' : EngineState) : Prop where
  portForwarders : s'.portForwarders = s.portForwarders
  started : ∀ key args, s'.requests.count (.startProcess (.forwarder key) args)
    = s.requests.count (.startProcess (.forwarder key) args)

instance : IsPreorder EngineState Rests where
  refl _ := ⟨rfl, fun _ _ => rfl⟩
  trans _ _ _ h h' := ⟨h'.portForwarders.trans h.portForwarders,
    fun key args => (h'.started key args).trans (h.started key args)⟩

/-- Without a DNS configurator none is, and there is still none. -/
def RestsUnconfigured (s s' : EngineState) : Prop := ¬ s.Configured → ¬ s'.Configured ∧ Rests s s'

instance : IsPreorder EngineState RestsUnconfigured where
  refl s := fun hs => ⟨hs, refl_of Rests s⟩
  trans _ _ _ h h' := fun hs =>
    ⟨(h' (h hs).1).1, trans_of Rests (h hs).2 (h' (h hs).1).2⟩

section OutOfReach

variable {W : World} {cfg : Settings} {p : PortAndProtocol} {enabled : Bool}

theorem unconfigured_ask {r : Request} (h : ∀ process args, r ≠ .startProcess process args) :
    Moves RestsUnconfigured (ask W r) :=
  ⟨fun _ hs => ⟨hs, rfl, fun _ _ => List.count_cons_of_ne (h _ _)⟩⟩

/-- The addresses of the interface are read, and there it ends. -/
theorem unconfigured_enablePortForwardingInterface (networkInterface : NetworkInterface)
    (ports : List PortAndProtocol) :
    Moves RestsUnconfigured (enablePortForwardingInterface W networkInterface ports enabled) := by
  constructor
  intro s hs
  have hask := (unconfigured_ask (W := W) (r := .getIPProperties networkInterface.id)
    (by simp)).run s hs
  rcases hrun : ask W (.getIPProperties networkInterface.id) s with ⟨_ | unicast, s'⟩
  · rw [hrun] at hask
    rw [enablePortForwardingInterface, Eff.bind_error hrun]
    exact hask
  · rw [hrun] at hask
    have htarget : targetAddress W s' = (.error .nullReference, s') := by
      have hnone : s'.dnsConfigurator = none := not_not.mp hask.1
      rw [targetAddress, Eff.bind_ok (Eff.get_run s'), hnone]
      rfl
    rw [enablePortForwardingInterface, Eff.bind_ok hrun, Eff.bind_error htarget]
    exact hask

theorem unconfigured_forwardToInterfaces :
    Moves RestsUnconfigured (forwardToInterfaces W cfg p enabled) := by
  rw [forwardToInterfaces]
  split
  · exact Eff.moves_pure ()
  · refine Eff.moves_bind (unconfigured_ask (by simp)) fun all => ?_
    exact Eff.moves_forEach _ fun _ _ => unconfigured_enablePortForwardingInterface _ _

theorem unconfigured_forwardToLoopback :
    Moves RestsUnconfigured (forwardToLoopback W p enabled) := by
  refine Eff.moves_bind (unconfigured_ask (by simp)) fun all => ?_
  split
  · exact Eff.moves_throw _
  · exact unconfigured_enablePortForwardingInterface _ _

/-- **A line whose forwarders are out of reach leaves them alone.** -/
theorem forwardPort_rests {line : String} (h : heard line = some (enabled, p)) {s : EngineState}
    (hreach : OutOfReach cfg p s) : Rests s (forwardPort W cfg line s).2 := by
  rw [forwardPort_snd, forwardPortSteps_heard h, Eff.bind_ok (updatePorts_mark p enabled s)]
  rcases hreach with ⟨hnone, hudp⟩ | hs
  · rw [forwardToInterfaces, if_pos hnone, if_neg hudp]
    exact ⟨rfl, fun _ _ => rfl⟩
  · have hmoves : Moves RestsUnconfigured (forwardToInterfaces W cfg p enabled >>= fun _ =>
        if p.protocol = "udp" then forwardToLoopback W p enabled else pure ()) := by
      refine Eff.moves_bind unconfigured_forwardToInterfaces fun _ => ?_
      split
      · exact unconfigured_forwardToLoopback
      · exact Eff.moves_pure ()
    have hrests := (hmoves.run { s with ports := Mark.apply s.ports (portMark enabled p) } hs).2
    exact ⟨hrests.portForwarders, hrests.started⟩

end OutOfReach

/-! ## A network with one address -/

/-- One interface with one address, which is the loopback too. -/
def Network.single (id address : String) : Network where
  interfaces := [⟨id, true⟩]
  unicast := fun id' => if id' = id then [⟨address, true⟩] else []
  listed := fun id' h => by
    by_cases he : id' = id
    · exact ⟨⟨id, true⟩, List.mem_singleton_self _, he.symm⟩
    · exact absurd (if_neg he) h

theorem Network.addresses_single (id address : String) :
    (Network.single id address).addresses id = [address] := by
  simp [Network.addresses, Network.single]

/-- The interface that the network is made of: the first selected one, if there is one. -/
def Settings.firstInterface (cfg : Settings) : String := cfg.portForwardInterfaces.headD "lo"

/-- **What is not out of reach can be reached at any address.** -/
theorem forwardPort_single {cfg : Settings} {line : String} {enabled : Bool} {p : PortAndProtocol}
    (h : heard line = some (enabled, p)) {s : EngineState} (hreach : ¬ OutOfReach cfg p s)
    {key : ForwarderKey} (hkey : key.portAndProto = p) :
    key ∈ (forwardPort (calm.on (.single cfg.firstInterface key.address)) cfg line
        s).2.portForwarders.items
      ↔ Starts p enabled := by
  obtain ⟨hselected, hs⟩ := not_or.mp hreach
  obtain ⟨-, -, hkeys⟩ := forwardPort_keys serves_calm
    (.single cfg.firstInterface key.address) cfg h (not_not.mp hs)
  have hmem : key.address ∈
      (Network.single cfg.firstInterface key.address).addresses cfg.firstInterface := by
    rw [Network.addresses_single]
    exact List.mem_singleton_self _
  have hreached : cfg.firstInterface ∈
      Table.reached (.single cfg.firstInterface key.address) cfg.portForwardInterfaces p := by
    refine Table.mem_reached.mpr ?_
    by_cases hudp : p.protocol = "udp"
    · exact .inr ⟨hudp, ⟨cfg.firstInterface, true⟩, rfl, rfl⟩
    · have hne : cfg.portForwardInterfaces ≠ [] := fun hnil => hselected ⟨hnil, hudp⟩
      obtain ⟨id, ids, hcons⟩ := List.exists_cons_of_ne_nil hne
      have hfirst : cfg.firstInterface = id := by
        rw [Settings.firstInterface, hcons, List.headD_cons]
      refine .inl ⟨⟨cfg.firstInterface, true⟩, List.mem_singleton_self _, rfl, ?_⟩
      rw [hfirst, hcons]
      exact List.mem_cons_self
  rw [hkeys key, if_pos ⟨hkey, cfg.firstInterface, hreached, hmem⟩, Starts, ← hkey]
  exact Iff.rfl

/-- A key of the port at an address where there is no forwarder. -/
theorem exists_fresh_key (p : PortAndProtocol) (s : EngineState) :
    ∃ key : ForwarderKey, key.portAndProto = p ∧ key ∉ s.portForwarders.items := by
  obtain ⟨address, haddress⟩ :=
    Infinite.exists_notMem_finset (s.portForwarders.items.map (·.address)).toFinset
  refine ⟨⟨address, p.port, p.protocol⟩, rfl, fun hmem => haddress ?_⟩
  exact List.mem_toFinset.mpr (List.mem_map.mpr ⟨_, hmem, rfl⟩)

/-! ## A machine that answers nothing -/

/-- Every request throws. -/
def World.down : World where
  reply := fun _ _ => .error (.external "")
  dataDistroTimer := fun _ => 0
  pgrepTimer := fun _ => 0
  parseAddress := fun _ => none

/-- **If the machine answers nothing, a line touches no forwarder.** -/
theorem forwardPort_down (cfg : Settings) (line : String) (s : EngineState) :
    (forwardPort .down cfg line s).2.portForwarders = s.portForwarders := by
  rcases hheard : heard line with _ | ⟨enabled, p⟩
  · rw [forwardPort_unheard hheard]
  · rw [forwardPort_snd, forwardPortSteps_heard hheard, Eff.bind_ok (updatePorts_mark p enabled s),
      forwardToInterfaces]
    split
    · split <;> rfl
    · rfl

end ContainerDesktop.Services
