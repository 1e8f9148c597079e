import ContainerDesktop.Services.LineEffects
import ContainerDesktop.Services.Sessions

/-!
# Foreign lines

Every parser of `ParsePortForwardCmdLine` has a default for a text that it does not
find: all addresses of IPv4, port 0, `tcp`.  And what is no `O` is a `C`.  So a line
that no `docker-proxy` for tcp or udp has sent opens or closes a port too, unless it
is shorter than a command or has the address `::` (`foreign_iff`).
-/

namespace ContainerDesktop.Services

/-! ## Lines -/

/-- The arguments behind the command letter. -/
def lineArgs (line : String) : List (List Char) := (line.toList.drop 2).splitOn ' '

/-- `option` stands in front of `value`. -/
def Carries (line option : String) (value : List Char) : Prop :=
  [option.toList, value] <:+: lineArgs line

/-- A number of a port. -/
def IsPort (value : List Char) : Prop :=
  value.all Char.isDigit = true ∧ 1 ≤ Nat.ofDigitChars 10 value 0 ∧
    Nat.ofDigitChars 10 value 0 ≤ 65535

/-- The line is no command about a port for tcp or udp. -/
inductive Foreign (line : String) : Prop
  | command : ¬ "O ".toList <+: line.toList → ¬ "C ".toList <+: line.toList → Foreign line
  | proto {value : List Char} : Carries line "-proto" value → value ≠ "tcp".toList →
      value ≠ "udp".toList → Foreign line
  | noPort : (∀ value, ¬ Carries line "-host-port" value) → Foreign line
  | port {value : List Char} : Carries line "-host-port" value → ¬ IsPort value → Foreign line

/-- The line is too short for a command, or the engine finds the address `::` in it. -/
def PassedOver (line : String) : Prop :=
  ∀ cmdLine, skipTwo line.toList = some cmdLine → (parsePortForwardCmdLine cmdLine).1 = .ipv6Any

theorem heard_eq_none_iff {line : String} : heard line = none ↔ PassedOver line := by
  unfold heard PassedOver
  rcases skipTwo line.toList with _ | cmdLine
  · simp
  · rcases hip : (parsePortForwardCmdLine cmdLine).1 with _ | _ <;> simp [hip]

/-- The port that the engine finds in the line. -/
def linePort (line : String) : PortAndProtocol :=
  (parsePortForwardCmdLine ((skipTwo line.toList).getD [])).2

/-- What it does with it. -/
def opens (line : String) : Bool := "O".toList.isPrefixOf line.toList

theorem heard_of_not_passedOver {line : String} (h : ¬ PassedOver line) :
    heard line = some (opens line, linePort line) := by
  unfold PassedOver at h
  push Not at h
  obtain ⟨cmdLine, hskip, hip⟩ := h
  have hany : (parsePortForwardCmdLine cmdLine).1 = .any := by
    rcases he : (parsePortForwardCmdLine cmdLine).1 with _ | _
    · rfl
    · exact absurd he hip
  rw [heard, hskip]
  simp [hany, opens, linePort, hskip]

/-! ## States -/

/-- The ports and the forwarders are as they were, and no forwarder was started in place of one. -/
structure LeavesAlone (s s' : EngineState) : Prop where
  ports : s'.ports = s.ports
  portForwarders : s'.portForwarders = s.portForwarders
  started : ∀ key args, ¬ Requested s s' (.startProcess (.forwarder key) args)

theorem apply_portMark_eq_iff {ports : List PortAndProtocol} {enabled : Bool}
    {p : PortAndProtocol} :
    Mark.apply ports (portMark enabled p) = ports ↔ (enabled = true ↔ p ∈ ports) := by
  refine ⟨fun h => ?_, apply_portMark_eq⟩
  cases enabled with
  | true =>
    have hmem : p ∈ Mark.apply ports (portMark true p) := Mark.mem_apply_opens.mpr (.inl rfl)
    exact iff_of_true rfl (h ▸ hmem)
  | false =>
    have herase : ports.erase p = ports := h
    exact iff_of_false Bool.false_ne_true (List.erase_eq_self_iff.mp herase)

/-- Nothing is left for a line about `p` to do. -/
structure NothingToDo (cfg : Settings) (enabled : Bool) (p : PortAndProtocol)
    (s : EngineState) : Prop where
  ports : enabled = true ↔ p ∈ s.ports
  forwarders : OutOfReach cfg p s ∨
    (¬ Starts p enabled ∧ ∀ key ∈ s.portForwarders.items, key.portAndProto ≠ p)

theorem leavesAlone_heard_iff {cfg : Settings} {line : String} {enabled : Bool}
    {p : PortAndProtocol} {s : EngineState} (h : heard line = some (enabled, p)) :
    (∀ W, LeavesAlone s (forwardPort W cfg line s).2) ↔ NothingToDo cfg enabled p s := by
  constructor
  · intro hall
    refine ⟨apply_portMark_eq_iff.mp ((forwardPort_ports h s).symm.trans (hall calm).ports), ?_⟩
    by_cases hreach : OutOfReach cfg p s
    · exact .inl hreach
    -- at any address, what is there before the line is what the line starts
    have hkeys : ∀ key : ForwarderKey, key.portAndProto = p →
        (key ∈ s.portForwarders.items ↔ Starts p enabled) := fun key hkey => by
      rw [← forwardPort_single h hreach hkey, (hall _).portForwarders]
    obtain ⟨key, hkey, hfresh⟩ := exists_fresh_key p s
    have hno : ¬ Starts p enabled := fun hstarts => hfresh ((hkeys key hkey).mpr hstarts)
    exact .inr ⟨hno, fun key' hmem hkey' => hno ((hkeys key' hkey').mp hmem)⟩
  · intro hnothing W
    have hports : (forwardPort W cfg line s).2.ports = s.ports :=
      (forwardPort_ports h s).trans (apply_portMark_eq hnothing.ports)
    rcases hnothing.forwarders with hreach | ⟨hno, hkeys⟩
    · have hrests := forwardPort_rests (W := W) h hreach
      refine ⟨hports, hrests.portForwarders, fun key args hreq => ?_⟩
      rw [Requested, hrests.started key args] at hreq
      omega
    · have hacts := forwardPort_acts (W := W) h cfg s
      refine ⟨hports, hacts.same hno hkeys, fun key args hreq => ?_⟩
      rw [Requested, hacts.started hno key args] at hreq
      exact absurd hreq (Nat.lt_irrefl _)

/-- **When a line leaves the ports and the forwarders alone, foreign or not.** -/
theorem foreign_iff (line : String) (cfg : Settings) (s : EngineState) :
    (∀ W, LeavesAlone s (forwardPort W cfg line s).2) ↔
      PassedOver line ∨ NothingToDo cfg (opens line) (linePort line) s := by
  by_cases h : PassedOver line
  · refine iff_of_true (fun W => ?_) (.inl h)
    rw [forwardPort_unheard (heard_eq_none_iff.mpr h)]
    exact ⟨rfl, rfl, fun _ _ => Nat.lt_irrefl _⟩
  · rw [or_iff_right h]
    exact leavesAlone_heard_iff (heard_of_not_passedOver h)

/-- A line about a port for sctp. -/
def sctpLine : String :=
  "O -proto sctp -host-ip 0.0.0.0 -host-port 132 -container-ip 172.17.0.2 -container-port 132"

theorem foreign_sctpLine : Foreign sctpLine := by
  have hcarries : Carries sctpLine "-proto" "sctp".toList := by
    show _ <:+: _
    decide +kernel
  exact .proto hcarries (by decide) (by decide)

theorem heard_sctpLine : heard sctpLine = some (true, ⟨132, "tcp"⟩) := by decide +kernel

/-- Port 132 is forwarded for tcp. -/
theorem foreign_changes :
    ¬ ∀ line, Foreign line → ∀ W cfg s, LeavesAlone s (forwardPort W cfg line s).2 := by
  intro hall
  have hports := (hall sctpLine foreign_sctpLine calm noDistributions .init).ports
  rw [forwardPort_ports heard_sctpLine] at hports
  exact absurd hports (by decide)

end ContainerDesktop.Services
