import ContainerDesktop.OpenItems
import ContainerDesktop.Services.PortForwarding
import Mathlib.Data.List.Infix

/-!
# The messages of `docker-proxy`

What the engine reads from the line of a proxy that was started with the usual
arguments, and what a line does to the list of ports.

The expressions of the engine look for their text from the left.  A part of the
line can be skipped if the text can begin nowhere in it (`Clear`), which is so
for every part without a hyphen.
-/

namespace ContainerDesktop.Services

/-! ## The first match -/

section FirstMatch

variable {α : Type} {text : List Char} {group : List Char → Option α}

/-- The text begins nowhere in `w`, whatever follows. -/
def Clear (text w : List Char) : Prop := ∀ u ∈ w.tails, u ≠ [] → ¬ text <+: u ∧ ¬ u <+: text

instance (text w : List Char) : Decidable (Clear text w) := List.decidableBAll _ _

theorem firstMatch_cons_of_not_begins {c : Char} {s : List Char} (h : ¬ text <+: c :: s) :
    firstMatch text group (c :: s) = firstMatch text group s := by
  rw [firstMatch, Bool.eq_false_iff.mpr fun hp => h (List.isPrefixOf_iff_prefix.mp hp)]

theorem firstMatch_skip {s : List Char} : ∀ {w : List Char}, Clear text w →
    firstMatch text group (w ++ s) = firstMatch text group s := by
  intro w
  induction w with
  | nil => intro _; rfl
  | cons c w ih =>
    intro h
    obtain ⟨hbegins, hpart⟩ := h (c :: w) (by simp) (by simp)
    have hnot : ¬ text <+: c :: (w ++ s) := by
      intro hp
      have hself : c :: w <+: c :: (w ++ s) := List.prefix_append (c :: w) s
      exact (List.prefix_or_prefix_of_prefix hp hself).elim hbegins hpart
    rw [List.cons_append, firstMatch_cons_of_not_begins hnot]
    exact ih fun u hu => h u (by simp [hu])

/-- A part without the first character of the text. -/
theorem clear_of_not_mem {c : Char} {w : List Char} (h : c ∉ w) : Clear (c :: text) w := by
  intro u hu hne
  obtain ⟨d, u, rfl⟩ := List.exists_cons_of_ne_nil hne
  have hd : c ≠ d := by
    rintro rfl
    exact h (((List.mem_tails _ _).mp hu).subset List.mem_cons_self)
  exact ⟨fun hp => hd (List.cons_prefix_cons.mp hp).1, fun hp =>
    hd (List.cons_prefix_cons.mp hp).1.symm⟩

theorem firstMatch_here {s : List Char} {value : α} (h : group s = some value) (hne : text ≠ []) :
    firstMatch text group (text ++ s) = some value := by
  obtain ⟨c, text, rfl⟩ := List.exists_cons_of_ne_nil hne
  have hp : (c :: text).isPrefixOf (c :: (text ++ s)) = true :=
    List.isPrefixOf_iff_prefix.mpr (List.prefix_append (c :: text) s)
  have hd : (c :: (text ++ s)).drop (c :: text).length = s := List.drop_left
  rw [List.cons_append, firstMatch, hp, hd, h]

end FirstMatch

/-! ## Arguments of a proxy -/

/-- The arguments that a `docker-proxy` is started with. -/
structure ProxyArgs where
  proto : String
  hostIp : String
  hostPort : Nat
  containerIp : String
  containerPort : Nat
  deriving DecidableEq

/-- `$@` -/
def ProxyArgs.args (a : ProxyArgs) : List String :=
  ["-proto", a.proto, "-host-ip", a.hostIp, "-host-port", toString a.hostPort, "-container-ip",
    a.containerIp, "-container-port", toString a.containerPort]

/-- `cmd=$@` -/
def ProxyArgs.cmd (a : ProxyArgs) : String := String.intercalate " " a.args

/-- **A proxy for TCP or UDP on all addresses of IPv4, or on one of IPv6 written with `::` in
front.** -/
structure ProxyArgs.Recognised (a : ProxyArgs) : Prop where
  proto : a.proto = "tcp" ∨ a.proto = "udp"
  hostIp : a.hostIp = "0.0.0.0" ∨ "::".toList <+: a.hostIp.toList ∧ '-' ∉ a.hostIp.toList
  hostPort : a.hostPort ≤ 65535

def ProxyArgs.portAndProto (a : ProxyArgs) : PortAndProtocol := ⟨a.hostPort, a.proto⟩

/-- The address that the engine reads. -/
def ProxyArgs.hostAddress (a : ProxyArgs) : HostAddress :=
  if a.hostIp = "0.0.0.0" then .any else .ipv6Any

theorem toList_cmd (a : ProxyArgs) : ∃ rest, a.cmd.toList =
    "-proto ".toList ++ (a.proto.toList ++ (" ".toList ++ ("-host-ip ".toList ++ (a.hostIp.toList ++
      (" ".toList ++ ("-host-port ".toList ++ (Nat.toDigits 10 a.hostPort
        ++ (" ".toList ++ rest)))))))) := by
  have hproto : "-proto ".toList = "-proto".toList ++ " ".toList := by decide
  have hip : "-host-ip ".toList = "-host-ip".toList ++ " ".toList := by decide
  have hport : "-host-port ".toList = "-host-port".toList ++ " ".toList := by decide
  refine ⟨"-container-ip".toList ++ (" ".toList ++ (a.containerIp.toList ++ (" ".toList ++
    ("-container-port".toList ++ (" ".toList ++ Nat.toDigits 10 a.containerPort))))), ?_⟩
  rw [ProxyArgs.cmd, ProxyArgs.args, String.toList_intercalate, hproto, hip, hport]
  simp only [List.map, List.intercalate, List.intersperse, List.flatten_cons, List.flatten_nil,
    List.append_nil, List.append_assoc, Nat.toString_eq_repr, Nat.toList_repr]

theorem isDecimalDigit_of_isDigit {c : Char} (h : c.isDigit = true) : isDecimalDigit c = true := by
  have hc : 48 ≤ c.toNat ∧ c.toNat ≤ 57 := by
    simpa [Char.isDigit, UInt32.le_iff_toNat_le] using h
  refine List.any_eq_true.mpr ⟨0x30, by decide, ?_⟩
  show decide _ = true
  exact decide_eq_true ⟨hc.1, hc.2⟩

theorem hostPortGroup_toDigits (n : Nat) (rest : List Char) :
    hostPortGroup (Nat.toDigits 10 n ++ (" ".toList ++ rest)) = some (Nat.toDigits 10 n) := by
  have hdigits : ∀ c ∈ Nat.toDigits 10 n, isDecimalDigit c = true := fun c hc =>
    isDecimalDigit_of_isDigit (Nat.isDigit_of_mem_toDigits (by omega) (by omega) hc)
  have hspace : " ".toList = [' '] := by decide
  have hnot : ¬ isDecimalDigit ' ' = true := by decide
  have htake : (Nat.toDigits 10 n ++ (" ".toList ++ rest)).takeWhile isDecimalDigit
      = Nat.toDigits 10 n := by
    rw [hspace, List.cons_append, List.takeWhile_append_of_pos hdigits,
      List.takeWhile_cons_of_neg hnot, List.append_nil]
  obtain ⟨d, ds, hcons⟩ := List.exists_cons_of_ne_nil (Nat.toDigits_ne_nil (n := n) (b := 10))
  rw [hostPortGroup, htake, hcons]

theorem tryParseInt_toDigits {n : Nat} (h : n ≤ 2147483647) :
    tryParseInt (Nat.toDigits 10 n) = some n := by
  have hdigits : (Nat.toDigits 10 n).all Char.isDigit = true :=
    List.all_eq_true.mpr fun c hc => Nat.isDigit_of_mem_toDigits (by omega) (by omega) hc
  rw [tryParseInt, Nat.ofDigitChars_ten_toDigits, if_pos ⟨hdigits, h⟩]

theorem protoGroup_of_tcp_or_udp {a : ProxyArgs} (h : a.proto = "tcp" ∨ a.proto = "udp")
    (s : List Char) : protoGroup (a.proto.toList ++ s) = some a.proto := by
  obtain hp | hp := h
  · have hbegins : "tcp".toList.isPrefixOf ("tcp".toList ++ s) = true :=
      List.isPrefixOf_iff_prefix.mpr (List.prefix_append _ _)
    rw [hp, protoGroup, if_pos hbegins]
  · have hbegins : "udp".toList.isPrefixOf ("udp".toList ++ s) = true :=
      List.isPrefixOf_iff_prefix.mpr (List.prefix_append _ _)
    have hnot : ¬ "tcp".toList.isPrefixOf ("udp".toList ++ s) = true := by
      show ¬ ('t' == 'u' && _) = true
      simp
    rw [hp, protoGroup, if_neg hnot, if_pos hbegins]

theorem hostIpGroup_of_recognised {a : ProxyArgs} (h : a.Recognised) (s : List Char) :
    hostIpGroup (a.hostIp.toList ++ s) = some a.hostAddress := by
  obtain hip | ⟨hip, -⟩ := h.hostIp
  · have hbegins : "0.0.0.0".toList.isPrefixOf ("0.0.0.0".toList ++ s) = true :=
      List.isPrefixOf_iff_prefix.mpr (List.prefix_append _ _)
    have hnot : ¬ "::".toList.isPrefixOf ("0.0.0.0".toList ++ s) = true := by
      show ¬ (':' == '0' && _) = true
      simp
    rw [ProxyArgs.hostAddress, hip, hostIpGroup, if_neg hnot, if_pos hbegins, if_pos rfl]
  · have hbegins : "::".toList.isPrefixOf (a.hostIp.toList ++ s) = true :=
      List.isPrefixOf_iff_prefix.mpr (hip.trans (List.prefix_append _ _))
    have hne : a.hostIp ≠ "0.0.0.0" := by
      intro he
      rw [he] at hip
      exact absurd hip (by decide)
    rw [ProxyArgs.hostAddress, hostIpGroup, if_pos hbegins, if_neg hne]

/-- **The engine reads the port, the protocol and the address of a recognised proxy.** -/
theorem parsePortForwardCmdLine_cmd {a : ProxyArgs} (h : a.Recognised) :
    parsePortForwardCmdLine a.cmd.toList = (a.hostAddress, a.portAndProto) := by
  obtain ⟨rest, hcmd⟩ := toList_cmd a
  have hproto : '-' ∉ a.proto.toList := by
    obtain hp | hp := h.proto <;> rw [hp] <;> decide
  have hhostIp : '-' ∉ a.hostIp.toList := by
    obtain hip | hip := h.hostIp
    · rw [hip]
      decide
    · exact hip.2
  have hclear : ∀ {m w : List Char}, '-' ∉ w → Clear ('-' :: m) w := clear_of_not_mem
  have hip : "-host-ip ".toList = '-' :: "host-ip ".toList := by decide
  have hport : "-host-port ".toList = '-' :: "host-port ".toList := by decide
  have hfirst : firstMatch "-host-ip ".toList hostIpGroup a.cmd.toList = some a.hostAddress := by
    rw [hcmd, firstMatch_skip (by decide), firstMatch_skip (hip ▸ hclear hproto),
      firstMatch_skip (by decide)]
    exact firstMatch_here (hostIpGroup_of_recognised h _) (by decide)
  have hsecond : firstMatch "-host-port ".toList hostPortGroup a.cmd.toList
      = some (Nat.toDigits 10 a.hostPort) := by
    rw [hcmd, firstMatch_skip (by decide), firstMatch_skip (hport ▸ hclear hproto),
      firstMatch_skip (by decide), firstMatch_skip (by decide),
      firstMatch_skip (hport ▸ hclear hhostIp), firstMatch_skip (by decide)]
    exact firstMatch_here (hostPortGroup_toDigits _ _) (by decide)
  have hthird : firstMatch "-proto ".toList protoGroup a.cmd.toList = some a.proto := by
    rw [hcmd]
    exact firstMatch_here (protoGroup_of_tcp_or_udp h.proto _) (by decide)
  have hfits : a.hostPort ≤ 2147483647 := by
    have := h.hostPort
    omega
  rw [parsePortForwardCmdLine, hfirst, hsecond, hthird]
  simp only [Option.getD_some, Option.bind_some, tryParseInt_toDigits hfits, ProxyArgs.portAndProto]

/-! ## What a message does -/

theorem skipTwo_cons {c d : Char} {rest : List Char} (h : c.toNat ≤ 0xFFFF) :
    skipTwo (c :: d :: rest) = some rest := by
  show (if 0xFFFF < c.toNat then some (d :: rest) else some rest) = some rest
  rw [if_neg (by omega)]

theorem skipTwo_command (enabled : Bool) (cmd : String) :
    skipTwo ((if enabled then "O " else "C ") ++ cmd).toList = some cmd.toList := by
  have ho : "O ".toList = ['O', ' '] := by decide
  have hc : "C ".toList = ['C', ' '] := by decide
  rw [String.toList_append]
  cases enabled with
  | true =>
    rw [if_pos rfl, ho, List.cons_append, List.cons_append, skipTwo_cons (by decide),
      List.nil_append]
  | false =>
    rw [if_neg Bool.false_ne_true, hc, List.cons_append, List.cons_append, skipTwo_cons (by decide),
      List.nil_append]

theorem enabled_command (enabled : Bool) (cmd : String) :
    "O".toList.isPrefixOf ((if enabled then "O " else "C ") ++ cmd).toList = enabled := by
  have ho : "O ".toList = "O".toList ++ [' '] := by decide
  have hc : "C ".toList = ['C', ' '] := by decide
  rw [String.toList_append]
  cases enabled with
  | true =>
    rw [if_pos rfl, ho, List.append_assoc]
    exact List.isPrefixOf_iff_prefix.mpr (List.prefix_append _ _)
  | false =>
    rw [if_neg Bool.false_ne_true, hc]
    show ('O' == 'C' && _) = false
    simp

/-- A message of a proxy. -/
structure PortMessage where
  enabled : Bool
  args : ProxyArgs
  deriving DecidableEq

namespace PortMessage

/-- `echo "O $cmd"` and `echo "C $cmd"` -/
def line (m : PortMessage) : String := (if m.enabled then "O " else "C ") ++ m.args.cmd

/-- What the message says about the port. -/
def mark (m : PortMessage) : Mark PortAndProtocol :=
  if m.enabled then .opens m.args.portAndProto else .closes m.args.portAndProto

theorem skipTwo_line (m : PortMessage) : skipTwo m.line.toList = some m.args.cmd.toList :=
  skipTwo_command m.enabled m.args.cmd

theorem enabled_line (m : PortMessage) : "O".toList.isPrefixOf m.line.toList = m.enabled :=
  enabled_command m.enabled m.args.cmd

end PortMessage

/-- Forwarders are started for the given ports at most; the list of ports and the running state
stay. -/
structure Forwards (given : List PortAndProtocol) (s s' : EngineState) : Prop where
  ports : s'.ports = s.ports
  runningState : s'.runningState = s.runningState
  started : ∀ (key : ForwarderKey) (args : List String), ⟨key.port, key.protocol⟩ ∉ given →
    s'.requests.count (.startProcess (.forwarder key) args)
      = s.requests.count (.startProcess (.forwarder key) args)

instance (ports : List PortAndProtocol) : IsPreorder EngineState (Forwards ports) where
  refl _ := ⟨rfl, rfl, fun _ _ _ => rfl⟩
  trans _ _ _ h₁ h₂ :=
    ⟨h₂.ports.trans h₁.ports, h₂.runningState.trans h₁.runningState,
      fun key args h => (h₂.started key args h).trans (h₁.started key args h)⟩

section Forwards

open Eff (Moves)

variable {W : World} {cfg : Settings} {ports : List PortAndProtocol}

theorem forwards_ask {r : Request} (h : ∀ key args, r = .startProcess (.forwarder key) args →
    ⟨key.port, key.protocol⟩ ∈ ports) : Moves (Forwards ports) (ask W r) := by
  constructor
  intro s
  refine ⟨rfl, rfl, fun key args hnot => List.count_cons_of_ne ?_⟩
  intro he
  exact hnot (h key args he)

/-- A request that starts no process. -/
theorem forwards_ask_other {r : Request} (h : ∀ process args, r ≠ .startProcess process args) :
    Moves (Forwards ports) (ask W r) :=
  forwards_ask fun key args he => absurd he (h (.forwarder key) args)

theorem forwards_targetAddress : Moves (Forwards ports) (targetAddress W) := by
  refine Eff.moves_bind Eff.moves_get fun s => ?_
  cases s.dnsConfigurator with
  | none => exact Eff.moves_throw _
  | some _ =>
    refine Eff.moves_bind ?_ fun text => ?_
    · exact Eff.moves_bind (forwards_ask_other (by simp)) fun _ => Eff.moves_pure _
    · cases text with
      | none => exact Eff.moves_throw _
      | some _ => exact Eff.moves_ofExcept _

theorem forwards_stopProcess (process : ProcessRole) :
    Moves (Forwards ports) (stopProcess W process) := by
  refine Eff.moves_bind (forwards_ask_other (by simp)) fun exited => ?_
  split
  · exact forwards_ask_other (by simp)
  · exact Eff.moves_pure ()

theorem forwards_removeForwarder (key : ForwarderKey) :
    Moves (Forwards ports) (removeForwarder W key) := by
  refine Eff.moves_bind Eff.moves_get fun s => ?_
  split
  · exact Eff.moves_bind (forwards_stopProcess _) fun _ => ⟨fun _ => ⟨rfl, rfl, fun _ _ _ => rfl⟩⟩
  · exact Eff.moves_pure ()

theorem forwards_startForwarder {key : ForwarderKey} (h : ⟨key.port, key.protocol⟩ ∈ ports)
    (target : String) : Moves (Forwards ports) (startForwarder W key target) := by
  rw [startForwarder]
  split
  · refine Eff.moves_bind (forwards_ask fun key' args he => ?_) fun _ => ?_
    · injection he with hrole _
      injection hrole with hkey
      exact hkey ▸ h
    · refine Eff.moves_bind (forwards_ask_other (by simp)) fun exited => ?_
      split
      · exact Eff.moves_throw _
      · exact Eff.moves_pure ()
  · exact Eff.moves_throw _

theorem forwards_forwardOn {portAndProto : PortAndProtocol} (h : portAndProto ∈ ports)
    (target : String) (enabled : Bool) (address : String) :
    Moves (Forwards ports) (forwardOn W target enabled portAndProto address) := by
  refine Eff.moves_catching (Eff.moves_bind (forwards_removeForwarder _) fun _ => ?_)
    fun _ => Eff.moves_pure ()
  split
  · exact Eff.moves_bind (forwards_startForwarder h target) fun _ =>
      ⟨fun _ => ⟨rfl, rfl, fun _ _ _ => rfl⟩⟩
  · exact Eff.moves_pure ()

theorem forwards_enablePortForwardingInterface (networkInterface : NetworkInterface)
    (enabled : Bool) : Moves (Forwards ports)
    (enablePortForwardingInterface W networkInterface ports enabled) := by
  refine Eff.moves_bind (forwards_ask_other (by simp)) fun unicast => ?_
  refine Eff.moves_bind forwards_targetAddress fun target => ?_
  refine Eff.moves_forEach ports fun portAndProto hmem => ?_
  exact Eff.moves_forEach _ fun address _ => forwards_forwardOn hmem target enabled address

theorem forwards_forwardToInterfaces (portAndProto : PortAndProtocol) (enabled : Bool) :
    Moves (Forwards [portAndProto]) (forwardToInterfaces W cfg portAndProto enabled) := by
  rw [forwardToInterfaces]
  split
  · exact Eff.moves_pure ()
  · refine Eff.moves_bind (forwards_ask_other (by simp)) fun all => ?_
    exact Eff.moves_forEach _ fun networkInterface _ =>
      forwards_enablePortForwardingInterface _ enabled

theorem forwards_forwardToLoopback (portAndProto : PortAndProtocol) (enabled : Bool) :
    Moves (Forwards [portAndProto]) (forwardToLoopback W portAndProto enabled) := by
  refine Eff.moves_bind (forwards_ask_other (by simp)) fun all => ?_
  split
  · exact Eff.moves_throw _
  · exact forwards_enablePortForwardingInterface _ enabled

/-- **Enabling an interface starts forwarders for the ports of the list only.** -/
theorem enablePortForwardingForAll_requested {networkInterface : NetworkInterface} {enabled : Bool}
    {s : EngineState} {key : ForwarderKey} {args : List String}
    (h : Requested s (enablePortForwardingForAll W networkInterface enabled s).2
      (.startProcess (.forwarder key) args)) : ⟨key.port, key.protocol⟩ ∈ s.ports := by
  by_contra hnot
  have hrun : enablePortForwardingForAll W networkInterface enabled s
      = enablePortForwardingInterface W networkInterface s.ports enabled s := rfl
  have hforwards : Forwards s.ports s
      (enablePortForwardingInterface W networkInterface s.ports enabled s).2 :=
    (forwards_enablePortForwardingInterface networkInterface enabled).run s
  rw [hrun, Requested, hforwards.started key args hnot] at h
  omega

theorem forwardPortSteps_line {m : PortMessage} (h : m.args.Recognised) :
    forwardPortSteps W cfg m.line =
      if m.args.hostIp = "0.0.0.0" then do
        updatePorts m.args.portAndProto m.enabled
        forwardToInterfaces W cfg m.args.portAndProto m.enabled
        if m.args.portAndProto.protocol = "udp" then
          forwardToLoopback W m.args.portAndProto m.enabled
        else return ()
      else return () := by
  rw [forwardPortSteps, m.skipTwo_line]
  simp only [m.enabled_line, parsePortForwardCmdLine_cmd h, ProxyArgs.hostAddress]
  by_cases hip : m.args.hostIp = "0.0.0.0"
  · rw [if_pos hip, if_pos hip, if_pos rfl]
  · rw [if_neg hip, if_neg hip, if_neg (by decide)]

/-- The mark on the list of ports. -/
def portMark (enabled : Bool) (p : PortAndProtocol) : Mark PortAndProtocol :=
  if enabled then .opens p else .closes p

theorem updatePorts_mark (p : PortAndProtocol) (enabled : Bool) (s : EngineState) :
    updatePorts p enabled s = (.ok (),
      { s with ports := Mark.apply s.ports (portMark enabled p) }) := by
  rw [portMark]
  cases enabled <;> rfl

/-- The exceptions are swallowed. -/
theorem forwardPort_snd (line : String) (s : EngineState) :
    (forwardPort W cfg line s).2 = (forwardPortSteps W cfg line s).2 := by
  rw [forwardPort]
  rcases hrun : forwardPortSteps W cfg line s with ⟨_ | _, s'⟩
  · rw [Eff.catching_error hrun]
    rfl
  · exact congrArg Prod.snd (Eff.catching_ok hrun)

/-- **A message opens or closes its port, whatever happens to the forwarders.** -/
theorem forwardPort_line {m : PortMessage} (h : m.args.Recognised) (s : EngineState) :
    (forwardPort W cfg m.line s).2.runningState = s.runningState ∧
      (forwardPort W cfg m.line s).2.ports
        = if m.args.hostIp = "0.0.0.0" then Mark.apply s.ports m.mark else s.ports := by
  rw [forwardPort_snd, forwardPortSteps_line h]
  by_cases hip : m.args.hostIp = "0.0.0.0"
  · rw [if_pos hip, if_pos hip, Eff.bind_ok (updatePorts_mark _ m.enabled s)]
    have hforwards : Moves (Forwards [m.args.portAndProto]) (forwardToInterfaces W cfg
        m.args.portAndProto m.enabled >>= fun _ =>
          if m.args.portAndProto.protocol = "udp"
            then forwardToLoopback W m.args.portAndProto m.enabled
          else pure ()) := by
      refine Eff.moves_bind (forwards_forwardToInterfaces _ _) fun _ => ?_
      split
      · exact forwards_forwardToLoopback _ _
      · exact Eff.moves_pure ()
    have hrun := hforwards.run { s with ports := Mark.apply s.ports m.mark }
    exact ⟨hrun.runningState, hrun.ports⟩
  · rw [if_neg hip, if_neg hip]
    exact ⟨rfl, rfl⟩

end Forwards

end ContainerDesktop.Services
