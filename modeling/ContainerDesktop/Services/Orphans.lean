import ContainerDesktop.Services.ForeignLines

/-!
# Forwarders without a port

`ForwardPort` changes the list of ports first and the forwarders afterwards, and what
fails in between is swallowed.  When the line takes a port off the list that has
forwarders, any failure leaves one behind (`leaves_no_orphan`), and it takes no failure
if a forwarder stands where the line does not look.
-/

namespace ContainerDesktop.Services

/-- Every forwarder is for a port of the list. -/
def NoOrphans (s : EngineState) : Prop := ∀ key ∈ s.portForwarders.items, key.portAndProto ∈ s.ports

/-- The line takes a port off the list that has forwarders. -/
structure Severs (line : String) (s : EngineState) : Prop where
  heard : ¬ PassedOver line
  closes : opens line = false
  delisted : linePort line ∉ s.ports.erase (linePort line)
  forwarded : ∃ key ∈ s.portForwarders.items, key.portAndProto = linePort line

section Line

variable {W : World} {cfg : Settings} {line : String} {s : EngineState}

theorem noOrphans_heard_iff {enabled : Bool} {p : PortAndProtocol}
    (h : heard line = some (enabled, p)) (hs : NoOrphans s) :
    NoOrphans (forwardPort W cfg line s).2 ↔ p ∈ Mark.apply s.ports (portMark enabled p) ∨
      ∀ key ∈ (forwardPort W cfg line s).2.portForwarders.items, key.portAndProto ≠ p := by
  have hacts := forwardPort_acts (W := W) h cfg s
  -- the other ports and their forwarders stay
  have hothers : ∀ q, q ≠ p → q ∈ s.ports → q ∈ Mark.apply s.ports (portMark enabled p) := by
    intro q hq hmem
    cases enabled with
    | true => exact Mark.mem_apply_opens.mpr (.inr hmem)
    | false => exact (List.mem_erase_of_ne hq).mpr hmem
  unfold NoOrphans
  rw [forwardPort_ports h]
  constructor
  · intro hafter
    by_cases hkeys : ∀ key ∈ (forwardPort W cfg line s).2.portForwarders.items, key.portAndProto ≠ p
    · exact .inr hkeys
    · push Not at hkeys
      obtain ⟨key, hmem, hkey⟩ := hkeys
      exact .inl (hkey ▸ hafter key hmem)
  · intro hcases key hmem
    by_cases hkey : key.portAndProto = p
    · rcases hcases with hp | hkeys
      · exact hkey ▸ hp
      · exact absurd hkey (hkeys key hmem)
    · exact hothers _ hkey (hs key ((hacts.others key hkey).mp hmem))

/-- The line severs a port, or leaves no orphan whatever happens. -/
theorem noOrphans_of_not_severs (hs : NoOrphans s) (h : ¬ Severs line s) :
    NoOrphans (forwardPort W cfg line s).2 := by
  by_cases hpassed : PassedOver line
  · rw [forwardPort_unheard (heard_eq_none_iff.mpr hpassed)]
    exact hs
  have hheard := heard_of_not_passedOver hpassed
  refine (noOrphans_heard_iff hheard hs).mpr ?_
  rcases hopens : opens line with _ | _
  · by_cases hlisted : linePort line ∈ s.ports.erase (linePort line)
    · exact .inl hlisted
    · refine .inr fun key hmem hkey => h ⟨hpassed, hopens, hlisted, key, ?_, hkey⟩
      by_contra hnot
      have hstarts := (forwardPort_acts hheard cfg s).fresh key hmem hnot
      rw [hopens] at hstarts
      exact Bool.false_ne_true hstarts.1
  · exact .inl (Mark.mem_apply_opens.mpr (.inl rfl))

theorem Severs.noOrphans_iff (hs : NoOrphans s) (h : Severs line s) :
    NoOrphans (forwardPort W cfg line s).2 ↔
      ∀ key ∈ (forwardPort W cfg line s).2.portForwarders.items,
      key.portAndProto ≠ linePort line := by
  rw [noOrphans_heard_iff (heard_of_not_passedOver h.heard) hs, h.closes]
  exact or_iff_right h.delisted

/-- The forwarders of the port stand at addresses that a line about it reaches. -/
def WithinReach (N : Network) (cfg : Settings) (p : PortAndProtocol) (s : EngineState) : Prop :=
  ∀ key ∈ s.portForwarders.items, key.portAndProto = p →
    ∃ id ∈ Table.reached N cfg.portForwardInterfaces p, key.address ∈ N.addresses id

theorem Severs.noOrphans_on_iff (hs : NoOrphans s) (h : Severs line s) (hW : Serves W)
    (hconfigured : s.Configured) (N : Network) :
    NoOrphans (forwardPort (W.on N) cfg line s).2 ↔ WithinReach N cfg (linePort line) s := by
  have hheard := heard_of_not_passedOver h.heard
  rw [h.closes] at hheard
  obtain ⟨-, -, hkeys⟩ := forwardPort_keys hW N cfg hheard hconfigured
  rw [h.noOrphans_iff hs]
  constructor
  · intro hafter key hmem hkey
    by_contra hnot
    refine hafter key ((hkeys key).mpr ?_) hkey
    rw [if_neg fun hreached => hnot hreached.2]
    exact hmem
  · intro hreach key hmem hkey
    rw [hkeys key] at hmem
    split at hmem
    · exact Bool.false_ne_true hmem.1
    · rename_i hnot
      exact hnot ⟨hkey, hreach key hmem hkey⟩

end Line

/-- **When a line leaves no forwarder without its port behind.**  If anything outside of the engine
may fail: when it takes no port off the list that has forwarders.  If nothing fails: also when it
does, but reaches all of them. -/
theorem leaves_no_orphan (line : String) (cfg : Settings) (s : EngineState) (hs : NoOrphans s) :
    ((∀ W, NoOrphans (forwardPort W cfg line s).2) ↔ ¬ Severs line s) ∧
      ∀ (W : World) (N : Network), Serves W → s.Configured →
        (NoOrphans (forwardPort (W.on N) cfg line s).2 ↔
          (Severs line s → WithinReach N cfg (linePort line) s)) := by
  refine ⟨⟨fun hall h => ?_, fun h W => noOrphans_of_not_severs hs h⟩, fun W N hW hconfigured => ?_⟩
  · have hkeys := (h.noOrphans_iff hs).mp (hall .down)
    rw [forwardPort_down] at hkeys
    obtain ⟨key, hmem, hkey⟩ := h.forwarded
    exact hkeys key hmem hkey
  · by_cases h : Severs line s
    · rw [h.noOrphans_on_iff hs hW hconfigured N]
      exact ⟨fun hreach _ => hreach, fun hreach => hreach h⟩
    · exact iff_of_true (noOrphans_of_not_severs hs h) fun hsevers => absurd hsevers h

/-- A web server ends. -/
def closeLine : String :=
  "C -proto tcp -host-ip 0.0.0.0 -host-port 8080 -container-ip 172.17.0.2 -container-port 80"

theorem linePort_closeLine : linePort closeLine = ⟨8080, "tcp"⟩ := by decide +kernel

theorem heard_closeLine : heard closeLine = some (false, ⟨8080, "tcp"⟩) := by decide +kernel

/-- Its port is forwarded at one address. -/
def forwardedWebServer : EngineState :=
  { EngineState.init with
    ports := [⟨8080, "tcp"⟩]
    portForwarders := ⟨[⟨"192.168.1.10", 8080, "tcp"⟩], by decide⟩
    dnsConfigurator := some false }

def eth0Selected : Settings := { noDistributions with portForwardInterfaces := ["eth0"] }

theorem noOrphans_webServer : NoOrphans forwardedWebServer := by
  intro key hmem
  obtain rfl := List.mem_singleton.mp hmem
  decide

theorem withinReach_webServer :
    WithinReach (.single "eth0" "192.168.1.10") eth0Selected ⟨8080, "tcp"⟩ forwardedWebServer := by
  intro key hmem _
  obtain rfl := List.mem_singleton.mp hmem
  refine ⟨"eth0", ?_, by decide⟩
  exact Table.mem_reached.mpr (.inl ⟨⟨"eth0", true⟩, List.mem_singleton_self _, rfl, by decide⟩)

theorem leaves_no_orphan_webServer :
    NoOrphans (forwardPort (calm.on (.single "eth0" "192.168.1.10")) eth0Selected closeLine
      forwardedWebServer).2 := by
  have hboth := leaves_no_orphan closeLine eth0Selected forwardedWebServer noOrphans_webServer
  refine (hboth.2 calm _ serves_calm (fun h => nomatch h)).mpr fun _ => ?_
  rw [linePort_closeLine]
  exact withinReach_webServer

/-- The interfaces cannot be listed when the web server ends. -/
theorem leaves_orphan :
    ¬ ∀ (line : String) (cfg : Settings) (s : EngineState) (W : World), NoOrphans s →
      NoOrphans (forwardPort W cfg line s).2 := by
  intro hall
  have hafter := hall closeLine eth0Selected forwardedWebServer .down noOrphans_webServer
  unfold NoOrphans at hafter
  rw [forwardPort_down, forwardPort_ports heard_closeLine] at hafter
  exact absurd (hafter ⟨"192.168.1.10", 8080, "tcp"⟩ (List.mem_singleton_self _)) (by decide)

end ContainerDesktop.Services
