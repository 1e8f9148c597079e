import ContainerDesktop.Services.LineEffects
import ContainerDesktop.Services.Sessions

/-!
# Ports published on one address

`_hostipParser` knows two spellings, `::` and `0.0.0.0`.  When it finds neither, the
address is `IPAddress.Any`, so that a port published on `127.0.0.1` is treated like
one published on all addresses (`read_address`).  `specificAddress_iff` says for which
lines and states this has no consequence.
-/

namespace ContainerDesktop.Services

/-! ## Lines -/

/-- The options that a `docker-proxy` is started with. -/
inductive ProxyFlag where
  | proto
  | hostIp
  | hostPort
  | containerIp
  | containerPort
  deriving DecidableEq

def ProxyFlag.text : ProxyFlag → String
  | proto => "-proto"
  | hostIp => "-host-ip"
  | hostPort => "-host-port"
  | containerIp => "-container-ip"
  | containerPort => "-container-port"

/-- The arguments of a `docker-proxy`: options with values, in any order, one of them `-host-ip`.
No protocol, port or address has a hyphen. -/
structure ProxyLine where
  front : List (ProxyFlag × String)
  address : String
  back : List (ProxyFlag × String)
  flags : ∀ x ∈ front ++ back, x.1 ≠ .hostIp ∧ '-' ∉ x.2.toList
  address_plain : '-' ∉ address.toList

namespace ProxyLine

variable (l : ProxyLine)

/-- `$@` -/
def args : List String :=
  (l.front ++ (.hostIp, l.address) :: l.back).flatMap fun x => [x.1.text, x.2]

/-- `cmd=$@` -/
def cmd : String := String.intercalate " " l.args

/-- `echo "O $cmd"` and `echo "C $cmd"` -/
def line (enabled : Bool) : String := (if enabled then "O " else "C ") ++ l.cmd

/-- The port and the protocol that the engine reads. -/
def portAndProto : PortAndProtocol := (parsePortForwardCmdLine l.cmd.toList).2

/-- The spelling of IPv6 that the engine knows. -/
def Ipv6 : Prop := "::".toList <+: l.address.toList

instance : Decidable l.Ipv6 := inferInstanceAs (Decidable ("::".toList <+: l.address.toList))

end ProxyLine

/-! ## Reading the address -/

/-- An option and its value, each with the space before it. -/
def spaced (x : ProxyFlag × String) : List Char :=
  (' ' :: (x.1.text.toList ++ [' '])) ++ x.2.toList

theorem cons_intercalate {α : Type} (c : α) : ∀ {ls : List (List α)}, ls ≠ [] →
    c :: [c].intercalate ls = ls.flatMap (c :: ·) := by
  intro ls
  induction ls with
  | nil => intro h; exact absurd rfl h
  | cons l ls ih =>
    intro _
    by_cases hls : ls = []
    · simp [hls]
    · rw [List.intercalate_cons_of_ne_nil hls, List.flatMap_cons, ← ih hls]
      simp

theorem ProxyLine.cons_cmd (l : ProxyLine) : ' ' :: l.cmd.toList =
    l.front.flatMap spaced ++ (spaced (.hostIp, l.address) ++ l.back.flatMap spaced) := by
  have hargs : l.args.map String.toList ≠ [] := by simp [args]
  have hspace : " ".toList = [' '] := by decide
  have hspaced : spaced = fun x => ' ' :: (x.1.text.toList ++ ' ' :: x.2.toList) := by
    funext x
    simp [spaced]
  rw [cmd, String.toList_intercalate, hspace, cons_intercalate ' ' hargs, args, ← List.flatMap_cons,
    ← List.flatMap_append, hspaced]
  simp [List.flatMap_map, List.flatMap_assoc]

theorem clear_flag {flag : ProxyFlag} (h : flag ≠ .hostIp) :
    Clear "-host-ip ".toList (' ' :: (flag.text.toList ++ [' '])) := by
  cases flag with
  | hostIp => exact absurd rfl h
  | proto => decide
  | hostPort => decide
  | containerIp => decide
  | containerPort => decide

section FirstMatch

variable {α : Type} {group : List Char → Option α}

theorem firstMatch_spaced {x : ProxyFlag × String} (hflag : x.1 ≠ .hostIp)
    (hvalue : '-' ∉ x.2.toList) (s : List Char) :
    firstMatch "-host-ip ".toList group (spaced x ++ s)
      = firstMatch "-host-ip ".toList group s := by
  have hip : "-host-ip ".toList = '-' :: "host-ip ".toList := by decide
  rw [spaced, List.append_assoc, firstMatch_skip (clear_flag hflag),
    firstMatch_skip (hip ▸ clear_of_not_mem hvalue)]

theorem firstMatch_flatMap_spaced : ∀ {xs : List (ProxyFlag × String)},
    (∀ x ∈ xs, x.1 ≠ .hostIp ∧ '-' ∉ x.2.toList) → ∀ s : List Char,
    firstMatch "-host-ip ".toList group (xs.flatMap spaced ++ s)
      = firstMatch "-host-ip ".toList group s := by
  intro xs
  induction xs with
  | nil => intro _ s; rfl
  | cons x xs ih =>
    intro h s
    obtain ⟨hx, hxs⟩ := List.forall_mem_cons.mp h
    rw [List.flatMap_cons, List.append_assoc, firstMatch_spaced hx.1 hx.2, ih hxs]

/-- An option whose value the group does not take is passed over. -/
theorem firstMatch_hostIp_none {a s : List Char} (ha : '-' ∉ a) (h : group (a ++ s) = none) :
    firstMatch "-host-ip ".toList group ("-host-ip ".toList ++ (a ++ s))
      = firstMatch "-host-ip ".toList group s := by
  have hip : "-host-ip ".toList = '-' :: "host-ip ".toList := by decide
  have hrest : Clear "-host-ip ".toList "host-ip ".toList := by decide
  have hdrop : ("-host-ip ".toList ++ (a ++ s)).drop "-host-ip ".toList.length = a ++ s :=
    List.drop_left
  have hnext : firstMatch "-host-ip ".toList group ("-host-ip ".toList ++ (a ++ s))
      = firstMatch "-host-ip ".toList group ("host-ip ".toList ++ (a ++ s)) := by
    rw [hip, List.cons_append] at hdrop ⊢
    rw [firstMatch, hdrop, h]
    cases List.isPrefixOf ('-' :: "host-ip ".toList) _ <;> rfl
  rw [hnext, firstMatch_skip hrest, firstMatch_skip (hip ▸ clear_of_not_mem ha)]

end FirstMatch

/-- A text that what follows does not continue is found in front of it or not at all. -/
theorem prefix_append_iff {t a s : List Char} (h : ∀ c ∈ s.head?, c ∉ t) :
    t <+: a ++ s ↔ t <+: a := by
  refine ⟨fun ht => ?_, fun ht => ht.trans (List.prefix_append a s)⟩
  rcases List.prefix_or_prefix_of_prefix ht (List.prefix_append a s) with hle | ⟨u, rfl⟩
  · exact hle
  · cases u with
    | nil => simp
    | cons c u =>
      obtain ⟨v, hv⟩ := (List.prefix_append_right_inj a).mp ht
      refine absurd ?_ (h c (by simp [← hv]))
      simp

theorem head_flatMap_spaced {xs : List (ProxyFlag × String)} {c : Char}
    (h : c ∈ (xs.flatMap spaced).head?) : c = ' ' := by
  cases xs with
  | nil => exact nomatch h
  | cons x xs => simpa [spaced, eq_comm] using h

/-- **Whatever does not begin with `::` is taken for all addresses of IPv4.** -/
theorem ProxyLine.read_address (l : ProxyLine) :
    (parsePortForwardCmdLine l.cmd.toList).1 = if l.Ipv6 then .ipv6Any else .any := by
  obtain ⟨hfront, hback⟩ := List.forall_mem_append.mp l.flags
  have hspace : firstMatch "-host-ip ".toList hostIpGroup l.cmd.toList
      = firstMatch "-host-ip ".toList hostIpGroup (' ' :: l.cmd.toList) :=
    (firstMatch_skip (w := [' ']) (by decide)).symm
  have hhostIp : spaced (.hostIp, l.address)
      = [' '] ++ ("-host-ip ".toList ++ l.address.toList) := by simp [spaced, ProxyFlag.text]
  have hsix : "::".toList <+: l.address.toList ++ l.back.flatMap spaced ↔ l.Ipv6 :=
    prefix_append_iff fun c hc => head_flatMap_spaced hc ▸ by decide
  have hread : firstMatch "-host-ip ".toList hostIpGroup l.cmd.toList
      = firstMatch "-host-ip ".toList hostIpGroup
          ("-host-ip ".toList ++ (l.address.toList ++ l.back.flatMap spaced)) := by
    rw [hspace, l.cons_cmd, firstMatch_flatMap_spaced hfront, hhostIp, List.append_assoc,
      firstMatch_skip (by decide), List.append_assoc]
  have hnothing : firstMatch "-host-ip ".toList hostIpGroup (l.back.flatMap spaced) = none := by
    rw [← List.append_nil (l.back.flatMap spaced), firstMatch_flatMap_spaced hback, firstMatch]
  have hgroup : hostIpGroup (l.address.toList ++ l.back.flatMap spaced)
      = if l.Ipv6 then some .ipv6Any
        else if "0.0.0.0".toList.isPrefixOf (l.address.toList ++ l.back.flatMap spaced)
        then some .any else none := by
    rw [hostIpGroup]
    exact if_congr (List.isPrefixOf_iff_prefix.trans hsix) rfl rfl
  show (firstMatch "-host-ip ".toList hostIpGroup l.cmd.toList).getD .any = _
  rw [hread]
  by_cases h : l.Ipv6
  · rw [if_pos h] at hgroup ⊢
    rw [firstMatch_here hgroup (by decide), Option.getD_some]
  · rw [if_neg h] at hgroup ⊢
    split at hgroup
    · rw [firstMatch_here hgroup (by decide), Option.getD_some]
    · rw [firstMatch_hostIp_none l.address_plain hgroup, hnothing, Option.getD_none]

theorem ProxyLine.heard_line (l : ProxyLine) (enabled : Bool) :
    heard (l.line enabled) = if l.Ipv6 then none else some (enabled, l.portAndProto) := by
  rw [line, heard_command, l.read_address]
  by_cases h : l.Ipv6
  · rw [if_pos h, if_pos h, if_neg (by decide)]
  · rw [if_neg h, if_neg h, if_pos rfl, portAndProto]

/-! ## What the lines may do -/

/-- Nothing is added to the ports or to the forwarders, and no forwarder is started. -/
structure ExposesNothing (s s' : EngineState) : Prop where
  ports : ∀ q, s'.ports.count q ≤ s.ports.count q
  portForwarders : ∀ key ∈ s'.portForwarders.items, key ∈ s.portForwarders.items
  started : ∀ key args, ¬ Requested s s' (.startProcess (.forwarder key) args)

/-- The ports that are published on all addresses stay, with their forwarders. -/
structure KeepsPublished (published : PortAndProtocol → Prop) (s s' : EngineState) : Prop where
  ports : ∀ q, published q → s.ports.count q ≤ s'.ports.count q
  portForwarders : ∀ key ∈ s.portForwarders.items, published key.portAndProto →
    key ∈ s'.portForwarders.items

theorem count_apply_opens {ports : List PortAndProtocol} {p : PortAndProtocol} :
    (∀ q, (Mark.apply ports (portMark true p)).count q ≤ ports.count q) ↔ p ∈ ports := by
  have happly : Mark.apply ports (portMark true p) = if p ∈ ports then ports
    else ports ++ [p] := rfl
  rw [happly]
  by_cases hp : p ∈ ports
  · simp [hp]
  · refine iff_of_false (fun h => ?_) hp
    have hcount := h p
    rw [if_neg hp, List.count_append, List.count_singleton_self] at hcount
    omega

theorem count_apply_closes {ports : List PortAndProtocol} {p q : PortAndProtocol} :
    ports.count q ≤ (Mark.apply ports (portMark false p)).count q ↔ q ≠ p ∨ p ∉ ports := by
  have happly : Mark.apply ports (portMark false p) = ports.erase p := rfl
  rw [happly]
  by_cases hq : q = p
  · subst hq
    rw [List.count_erase_self]
    by_cases hp : q ∈ ports
    · have hpos : 0 < ports.count q := List.count_pos_iff.mpr hp
      refine iff_of_false (by omega) fun h => ?_
      rcases h with hne | hnot
      · exact hne rfl
      · exact hnot hp
    · have hzero : ports.count q = 0 := List.count_eq_zero_of_not_mem hp
      exact iff_of_true (by omega) (.inr hp)
  · rw [List.count_erase_of_ne hq]
    simp [hq]

section Line

variable {cfg : Settings} {line : String} {p : PortAndProtocol} {s : EngineState}

theorem exposesNothing_iff (h : heard line = some (true, p)) :
    (∀ W, ExposesNothing s (forwardPort W cfg line s).2) ↔
      p ∈ s.ports ∧ (OutOfReach cfg p s ∨ 65535 < p.port) := by
  constructor
  · intro hall
    refine ⟨count_apply_opens.mp fun q => ?_, ?_⟩
    · have hcount := (hall calm).ports q
      rw [forwardPort_ports h] at hcount
      exact hcount
    · by_contra hnot
      obtain ⟨hreach, hport⟩ := not_or.mp hnot
      obtain ⟨key, hkey, hfresh⟩ := exists_fresh_key p s
      have hstarts := (forwardPort_single h hreach hkey).mpr ⟨rfl, by omega⟩
      exact hfresh ((hall _).portForwarders key hstarts)
  · intro ⟨hp, hquiet⟩ W
    have hacts := forwardPort_acts (W := W) h cfg s
    have hports : ∀ q, (forwardPort W cfg line s).2.ports.count q ≤ s.ports.count q := by
      rw [forwardPort_ports h]
      exact count_apply_opens.mpr hp
    rcases hquiet with hreach | hport
    · have hrests := forwardPort_rests (W := W) h hreach
      refine ⟨hports, fun key hkey => hrests.portForwarders ▸ hkey, fun key args hreq => ?_⟩
      rw [Requested, hrests.started key args] at hreq
      exact absurd hreq (Nat.lt_irrefl _)
    · have hno : ¬ Starts p true := fun hstarts => absurd hstarts.2 (by omega)
      refine ⟨hports, fun key hkey => ?_, fun key args hreq => ?_⟩
      · by_contra hnot
        exact hno (hacts.fresh key hkey hnot)
      · rw [Requested, hacts.started hno key args] at hreq
        exact absurd hreq (Nat.lt_irrefl _)

theorem keepsPublished_iff (h : heard line = some (false, p)) {published : PortAndProtocol → Prop} :
    (∀ W, KeepsPublished published s (forwardPort W cfg line s).2) ↔
      ¬ published p ∨ (p ∉ s.ports ∧
        (OutOfReach cfg p s ∨ ∀ key ∈ s.portForwarders.items, key.portAndProto ≠ p)) := by
  constructor
  · intro hall
    by_cases hp : published p
    · refine .inr ⟨?_, ?_⟩
      · have hcount := (hall calm).ports p hp
        rw [forwardPort_ports h] at hcount
        exact (count_apply_closes.mp hcount).resolve_left fun hne => hne rfl
      · by_contra hnot
        obtain ⟨hreach, hkeys⟩ := not_or.mp hnot
        push Not at hkeys
        obtain ⟨key, hmem, hkey⟩ := hkeys
        have hstarts := (forwardPort_single h hreach hkey).mp
          ((hall _).portForwarders key hmem (hkey.symm ▸ hp))
        exact Bool.false_ne_true hstarts.1
    · exact .inl hp
  · intro hquiet W
    have hacts := forwardPort_acts (W := W) h cfg s
    refine ⟨fun q hq => ?_, fun key hmem hq => ?_⟩
    · rw [forwardPort_ports h]
      refine count_apply_closes.mpr ?_
      rcases hquiet with hp | ⟨hp, -⟩
      · exact .inl fun he => hp (he ▸ hq)
      · exact .inr hp
    · by_cases hkey : key.portAndProto = p
      · rcases hquiet with hp | ⟨-, hreach | hkeys⟩
        · exact absurd (hkey ▸ hq) hp
        · exact (forwardPort_rests (W := W) h hreach).portForwarders.symm ▸ hmem
        · exact absurd hkey (hkeys key hmem)
      · exact (hacts.others key hkey).mpr hmem

end Line

/-- **When a port that is published on one address is not exposed on others.**  It is not for
addresses that begin with `::`; for all the others the line is treated like one for all addresses,
and only a state in which there is nothing left to add or to remove hides it. -/
theorem specificAddress_iff (l : ProxyLine) (cfg : Settings) (s : EngineState)
    (published : PortAndProtocol → Prop) :
    ((∀ W, ExposesNothing s (forwardPort W cfg (l.line true) s).2) ↔
        l.Ipv6 ∨ (l.portAndProto ∈ s.ports ∧
          (OutOfReach cfg l.portAndProto s ∨ 65535 < l.portAndProto.port))) ∧
      ((∀ W, KeepsPublished published s (forwardPort W cfg (l.line false) s).2) ↔
        l.Ipv6 ∨ ¬ published l.portAndProto ∨ (l.portAndProto ∉ s.ports ∧
          (OutOfReach cfg l.portAndProto s ∨
            ∀ key ∈ s.portForwarders.items, key.portAndProto ≠ l.portAndProto))) := by
  by_cases h : l.Ipv6
  · have hheard : ∀ enabled, heard (l.line enabled) = none := fun enabled => by
      rw [l.heard_line, if_pos h]
    refine ⟨iff_of_true (fun W => ?_) (.inl h), iff_of_true (fun W => ?_) (.inl h)⟩
    · rw [forwardPort_unheard (hheard true)]
      exact ⟨fun _ => Nat.le_refl _, fun _ hkey => hkey, fun _ _ => Nat.lt_irrefl _⟩
    · rw [forwardPort_unheard (hheard false)]
      exact ⟨fun _ _ => Nat.le_refl _, fun _ hkey _ => hkey⟩
  · have hheard : ∀ enabled, heard (l.line enabled) = some (enabled, l.portAndProto) :=
        fun enabled => by
      rw [l.heard_line, if_neg h]
    rw [or_iff_right h, or_iff_right h]
    exact ⟨exposesNothing_iff (hheard true), keepsPublished_iff (hheard false)⟩

/-- A web server for this machine only. -/
def localWebServer : ProxyLine where
  front := [(.proto, "tcp")]
  address := "127.0.0.1"
  back := [(.hostPort, "8080"), (.containerIp, "172.17.0.2"), (.containerPort, "80")]
  flags := by decide
  address_plain := by decide

theorem heard_localWebServer (enabled : Bool) :
    heard (localWebServer.line enabled) = some (enabled, ⟨8080, "tcp"⟩) := by
  have hread : localWebServer.portAndProto = ⟨8080, "tcp"⟩ := by decide +kernel
  rw [localWebServer.heard_line, if_neg (by decide), hread]

/-- It is put on the list of the ports to forward, and its end takes a port off the list that is
published on all addresses. -/
theorem localWebServer_exposed :
    (¬ ∀ (l : ProxyLine), l.address ≠ "0.0.0.0" → ∀ W cfg s,
        ExposesNothing s (forwardPort W cfg (l.line true) s).2) ∧
      ¬ ∀ (l : ProxyLine), l.address ≠ "0.0.0.0" → ∀ W cfg s published,
        KeepsPublished published s (forwardPort W cfg (l.line false) s).2 := by
  constructor
  · intro hall
    have hcount := (hall localWebServer (by decide) calm noDistributions .init).ports ⟨8080, "tcp"⟩
    rw [forwardPort_ports (heard_localWebServer true)] at hcount
    exact absurd hcount (by decide)
  · intro hall
    have hcount := (hall localWebServer (by decide) calm noDistributions
      { EngineState.init with ports := [⟨8080, "tcp"⟩] } fun _ => True).ports ⟨8080, "tcp"⟩ trivial
    rw [forwardPort_ports (heard_localWebServer false)] at hcount
    exact absurd hcount (by decide)

end ContainerDesktop.Services
