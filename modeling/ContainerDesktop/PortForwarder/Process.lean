import ContainerDesktop.Flags
import ContainerDesktop.Processes.ArgumentBuilder
import ContainerDesktop.Services.PortForwarding

/-!
# The process of a forwarder

`PortForwarder.Start` writes two end points onto a command line, and the process that it
starts reads them from its flags.  Between the two are the rules by which Windows cuts a
command line into arguments, the parser of the flags, and `net.ParseIP`.

`process_reads_endpoints` says that the process listens where the engine wanted it to, and dials
what the engine wanted it to.
-/

namespace ContainerDesktop.PortForwarder

open ContainerDesktop.Processes (ArgumentBuilder Piece isNullOrWhiteSpace line)
open ContainerDesktop.Configuration (isWhiteSpace)
open CommandLine (split)
open ContainerDesktop.Services (ForwarderKey World EngineM ask startForwarder)
open Flags (Kind Value textOf intOf)

abbrev Text := List Char

/-! ## What the engine starts -/

/-- An `IPAddress` of the family `InterNetwork`. -/
structure IPv4 where
  a : UInt8
  b : UInt8
  c : UInt8
  d : UInt8
  deriving DecidableEq

structure IPEndPoint where
  address : IPv4
  port : Nat
  port_le : port ≤ 65535
  deriving DecidableEq

def IPv4.octets (ip : IPv4) : List UInt8 := [ip.a, ip.b, ip.c, ip.d]

/-- `ToString` of a number that is not negative. -/
def decimal (n : Nat) : Text := Nat.toDigits 10 n

/-- `IPAddress.ToString` -/
def IPv4.text (ip : IPv4) : Text := List.intercalate ['.'] (ip.octets.map fun o => decimal o.toNat)

/-- The arguments that `PortForwarder.Start` starts the process with. -/
def startArgs (localEndPoint remote : IPEndPoint) (protocol : Text) : Text :=
  ((((((ArgumentBuilder.new none).addNamed (some "-proto".toList) (some protocol)).addNamed
    (some "-frontend-ip".toList) (some localEndPoint.address.text)).addNamed
    (some "-frontend-port".toList) (some (decimal localEndPoint.port))).addNamed
    (some "-backend-ip".toList) (some remote.address.text)).addNamed
    (some "-backend-port".toList) (some (decimal remote.port))).build

/-! ## What the process reads -/

/-- A `net.IP`.  The empty one is `nil`. -/
abbrev IP := List UInt8

def v4InV6Prefix : IP := List.replicate 10 0 ++ [0xff, 0xff]

def to4 (ip : IP) : IP :=
  if ip.length = 4 then ip
  else if ip.length = 16 ∧ ip.take 12 = v4InV6Prefix then ip.drop 12
  else []

/-- One number of an address: no more digits than it needs, and at most 255. -/
def parseOctet (s : Text) : Option UInt8 :=
  if s ≠ [] ∧ s.all Char.isDigit ∧ (s.head? = some '0' → s.length = 1) ∧
      Nat.ofDigitChars 10 s 0 ≤ 255 then
    some (UInt8.ofNat (Nat.ofDigitChars 10 s 0))
  else none

def parseIPv4 (s : Text) : Option IP :=
  match s.splitOn '.' with
  | [a, b, c, d] => do
    return v4InV6Prefix ++ [← parseOctet a, ← parseOctet b, ← parseOctet c, ← parseOctet d]
  | _ => none

/-- `net.ParseIP`.  What comes first in the text says which of the notations it is in. -/
def parseIP (parseIPv6 : Text → Option IP) (s : Text) : IP :=
  match s.find? fun c => c = '.' ∨ c = ':' ∨ c = '%' with
  | some '.' => (parseIPv4 s).getD []
  | some ':' => (parseIPv6 s).getD []
  | _ => []

inductive Network where
  | tcp
  | udp
  deriving DecidableEq

/-- A `net.TCPAddr` or a `net.UDPAddr`. -/
structure Addr where
  network : Network
  ip : IP
  port : Int
  deriving DecidableEq

/-- The version that is added to the name of the network. -/
inductive IpVersion where
  | ipv4
  | ipv6
  deriving DecidableEq

def ipVersion (frontendAddr : Addr) : IpVersion := if to4 frontendAddr.ip = [] then .ipv6 else .ipv4

/-- A `TCPProxy` or a `UDPProxy` before `Run`. -/
structure Proxy where
  version : IpVersion
  frontendAddr : Addr
  backendAddr : Addr
  deriving DecidableEq

/-- How the process ends before there is a proxy. -/
inductive Fatal (E : Type) where
  | flags (e : Flags.Error)
  | unsupportedProtocol (proto : Text)
  | newProxy (e : E)
  deriving DecidableEq

def formal (name : Text) : Option Kind :=
  if ["proto".toList, "frontend-ip".toList, "backend-ip".toList].contains name then some .text
  else if ["frontend-port".toList, "backend-port".toList].contains name then some .int
  else none

section Main

variable {E : Type} (listen : IpVersion → Addr → Except E Addr) (parseIPv6 : Text → Option IP)

def parseHostContainerAddrs (args : List Text) : Except (Fatal E) (Addr × Addr) :=
  match Flags.parse formal args with
  | .error e => .error (.flags e)
  | .ok (values, _) =>
    let proto := textOf values "proto".toList "tcp".toList
    let hostIP := textOf values "frontend-ip".toList []
    let hostPort := intOf values "frontend-port".toList (-1)
    let containerIP := textOf values "backend-ip".toList []
    let containerPort := intOf values "backend-port".toList (-1)
    if proto = "tcp".toList then
      .ok (⟨.tcp, parseIP parseIPv6 hostIP, hostPort⟩,
        ⟨.tcp, parseIP parseIPv6 containerIP, containerPort⟩)
    else if proto = "udp".toList then
      .ok (⟨.udp, parseIP parseIPv6 hostIP, hostPort⟩,
        ⟨.udp, parseIP parseIPv6 containerIP, containerPort⟩)
    else .error (.unsupportedProtocol proto)

/-- `NewTCPProxy` and `NewUDPProxy`, with what `net.ListenTCP` and `net.ListenUDP` do. -/
def newProxy (frontendAddr backendAddr : Addr) : Except E Proxy :=
  (listen (ipVersion frontendAddr) frontendAddr).map fun addr =>
    ⟨ipVersion frontendAddr, addr, backendAddr⟩

/-- `main`, up to `Run`. -/
def main (args : List Text) : Except (Fatal E) Proxy :=
  match parseHostContainerAddrs parseIPv6 args with
  | .error e => .error e
  | .ok (host, container) => (newProxy listen host container).mapError .newProxy

end Main

/-! ## Addresses -/

section Addresses

variable {ip : IPv4} {c : Char}

def IPv4.bytes (ip : IPv4) : IP := v4InV6Prefix ++ ip.octets

theorem isDigit_decimal {n : Nat} (hc : c ∈ decimal n) : c.isDigit = true := Flags.isDigit_of_mem hc

theorem parseOctet_decimal (o : UInt8) : parseOctet (decimal o.toNat) = some o := by
  have hlt : o.toNat < 256 := o.toNat_lt
  have hvalue : Nat.ofDigitChars 10 (decimal o.toNat) 0 = o.toNat := Nat.ofDigitChars_ten_toDigits
  have hzero : (decimal o.toNat).head? = some '0' → (decimal o.toNat).length = 1 := by
    intro hhead
    have ho : o.toNat = 0 := by
      by_cases h : o.toNat = 0
      · exact h
      · exact absurd hhead (Flags.toDigits_head (Nat.pos_of_ne_zero h))
    rw [ho]
    rfl
  rw [parseOctet, hvalue, if_pos ⟨Nat.toDigits_ne_nil, List.all_eq_true.mpr fun c =>
    isDigit_decimal, hzero, by omega⟩, UInt8.ofNat_toNat]

theorem splitOn_text (ip : IPv4) :
    ip.text.splitOn '.' = ip.octets.map fun o => decimal o.toNat := by
  rw [IPv4.text, List.splitOn_intercalate]
  · intro s hs hdot
    obtain ⟨o, -, rfl⟩ := List.mem_map.mp hs
    exact absurd (isDigit_decimal hdot) (by decide)
  · exact List.cons_ne_nil _ _

theorem parseIPv4_text (ip : IPv4) : parseIPv4 ip.text = some ip.bytes := by
  rw [parseIPv4, splitOn_text]
  simp only [IPv4.octets, List.map_cons, List.map_nil, parseOctet_decimal]
  rfl

theorem text_eq (ip : IPv4) :
    ip.text = decimal ip.a.toNat ++ '.' :: (decimal ip.b.toNat ++ '.'
      :: (decimal ip.c.toNat ++ '.' :: decimal ip.d.toNat)) := by
  simp [IPv4.text, IPv4.octets, List.intercalate]

theorem mem_text (hc : c ∈ ip.text) : c.isDigit = true ∨ c = '.' := by
  rw [text_eq] at hc
  simp only [List.mem_append, List.mem_cons] at hc
  rcases hc with hc | rfl | hc | rfl | hc | rfl | hc
  all_goals first | exact .inr rfl | exact .inl (isDigit_decimal hc)

/-- The text of an address is read as its sixteen bytes. -/
theorem parseIP_text (parseIPv6 : Text → Option IP) (ip : IPv4) :
    parseIP parseIPv6 ip.text = ip.bytes := by
  have hfind : ip.text.find? (fun c => c = '.' ∨ c = ':' ∨ c = '%') = some '.' := by
    have hdigits : (decimal ip.a.toNat).find? (fun c => c = '.' ∨ c = ':' ∨ c = '%') = none := by
      rw [List.find?_eq_none]
      intro c hc hmark
      have hdigit := isDigit_decimal hc
      rcases of_decide_eq_true hmark with rfl | rfl | rfl
      all_goals exact absurd hdigit (by decide)
    rw [text_eq, List.find?_append, hdigits]
    rfl
  rw [parseIP, hfind]
  simp only [parseIPv4_text, Option.getD_some]

end Addresses

/-! ## The command line -/

section CommandLine

variable {localEndPoint remote : IPEndPoint} {protocol : Text}

def IPEndPoint.addr (e : IPEndPoint) (network : Network) : Addr :=
  ⟨network, e.address.bytes, e.port⟩

/-- The flags for two end points, with what the process makes of their values. -/
def settings (localEndPoint remote : IPEndPoint) : List (Text × Text × Value) :=
  [("frontend-ip".toList, localEndPoint.address.text, .text localEndPoint.address.text),
    ("frontend-port".toList, decimal localEndPoint.port, .int localEndPoint.port),
    ("backend-ip".toList, remote.address.text, .text remote.address.text),
    ("backend-port".toList, decimal remote.port, .int remote.port)]

/-- The protocol is left out if it is blank. -/
def allSettings (localEndPoint remote : IPEndPoint) (protocol : Text) :
    List (Text × Text × Value) :=
  if isNullOrWhiteSpace (some protocol) then settings localEndPoint remote
  else ("proto".toList, protocol, .text protocol) :: settings localEndPoint remote

/-- No character means anything to the rules of the command line. -/
def Plain (s : Text) : Prop := ∀ c ∈ s, c ≠ ' ' ∧ c ≠ '\t' ∧ c ≠ '"' ∧ c ≠ '\\'

instance (s : Text) : Decidable (Plain s) := List.decidableBAll _ s

/-- Only digits and dots, and at least one of them. -/
def Dotted (s : Text) : Prop := s ≠ [] ∧ ∀ c ∈ s, c.isDigit = true ∨ c = '.'

theorem dotted_decimal (n : Nat) : Dotted (decimal n) :=
  ⟨Nat.toDigits_ne_nil, fun _ hc => .inl (isDigit_decimal hc)⟩

theorem dotted_text (ip : IPv4) : Dotted ip.text := by
  refine ⟨?_, fun _ => mem_text⟩
  rw [text_eq]
  simp

theorem Dotted.plain {s : Text} (h : Dotted s) : Plain s := by
  intro c hc
  refine ⟨?_, ?_, ?_, ?_⟩
  all_goals
    rintro rfl
    exact absurd (h.2 _ hc) (by decide)

theorem Dotted.notBlank {s : Text} (h : Dotted s) : isNullOrWhiteSpace (some s) = false := by
  obtain ⟨c, s, rfl⟩ := List.exists_cons_of_ne_nil h.1
  have hc : isWhiteSpace c = false := by
    rcases h.2 c List.mem_cons_self with hdigit | rfl
    · have hrange : 48 ≤ c.toNat ∧ c.toNat ≤ 57 := Char.isDigit_iff_toNat.mp hdigit
      simp only [isWhiteSpace, List.mem_cons, List.not_mem_nil, or_false, decide_eq_false_iff_not]
      omega
    · decide
  rw [isNullOrWhiteSpace, List.all_cons, hc, Bool.false_and]

/-- A flag and its value on the command line. -/
def pieces (s : Text × Text × Value) : List Piece := [.plain ('-' :: s.1), .plain s.2.1]

/-- A blank value is left out together with its flag. -/
theorem build_addNamed (b : ArgumentBuilder) (s : Text × Text × Value) :
    (b.addNamed (some ('-' :: s.1)) (some s.2.1)).build
      = b.build ++ line (if isNullOrWhiteSpace (some s.2.1) then [] else pieces s) := by
  have hname : isNullOrWhiteSpace (some ('-' :: s.1)) = false := rfl
  by_cases hblank : isNullOrWhiteSpace (some s.2.1) = true
  · rw [if_pos hblank, ArgumentBuilder.addNamed, hname, hblank]
    exact (List.append_nil _).symm
  · rw [if_neg hblank, pieces]
    exact Processes.addNamed_plain hname (Bool.eq_false_iff.mpr hblank)

theorem build_settings (settings : List (Text × Text × Value)) (b : ArgumentBuilder) :
    (settings.foldl (fun b s => b.addNamed (some ('-' :: s.1)) (some s.2.1)) b).build
      = b.build
        ++ line ((settings.filter fun s => !isNullOrWhiteSpace (some s.2.1)).flatMap pieces) := by
  induction settings generalizing b with
  | nil => exact (List.append_nil _).symm
  | cons s settings ih =>
    rw [List.foldl_cons, ih, build_addNamed, List.append_assoc, List.filter_cons]
    by_cases hblank : isNullOrWhiteSpace (some s.2.1) = true
    · simp [hblank, line]
    · simp [hblank, line]

theorem startArgs_eq (localEndPoint remote : IPEndPoint) (protocol : Text) :
    startArgs localEndPoint remote protocol = line
      ((allSettings localEndPoint remote protocol).flatMap pieces) := by
  have hbuild := build_settings (("proto".toList, protocol, .text protocol)
    :: settings localEndPoint remote) (ArgumentBuilder.new none)
  have hsettings : (settings localEndPoint remote).filter
    (fun s => !isNullOrWhiteSpace (some s.2.1))
      = settings localEndPoint remote := by
    rw [List.filter_eq_self]
    intro s hs
    simp only [settings, List.mem_cons, List.not_mem_nil, or_false] at hs
    rcases hs with rfl | rfl | rfl | rfl
    · rw [(dotted_text _).notBlank]; rfl
    · rw [(dotted_decimal _).notBlank]; rfl
    · rw [(dotted_text _).notBlank]; rfl
    · rw [(dotted_decimal _).notBlank]; rfl
  refine Eq.trans hbuild ?_
  rw [List.filter_cons, hsettings, allSettings]
  by_cases hblank : isNullOrWhiteSpace (some protocol) = true
  · rw [if_pos hblank, hblank]
    rfl
  · rw [if_neg hblank, Bool.eq_false_iff.mpr hblank]
    rfl

/-- Windows cuts the command line where the engine has put it together. -/
theorem split_startArgs (localEndPoint remote : IPEndPoint) (hprotocol : Plain protocol) :
    split (startArgs localEndPoint remote protocol)
      = (allSettings localEndPoint remote protocol).flatMap fun s => ['-' :: s.1, s.2.1] := by
  have hnames :
    ∀ name ∈ ["proto".toList, "frontend-ip".toList, "frontend-port".toList, "backend-ip".toList,
      "backend-port".toList], Plain ('-' :: name) := by decide
  have hvalue : ∀ s ∈ allSettings localEndPoint remote protocol, s.2.1 ≠ [] ∧ Plain s.2.1 ∧
      Plain ('-' :: s.1) := by
    intro s hs
    have hcases : (¬ isNullOrWhiteSpace (some protocol) = true ∧
      s = ("proto".toList, protocol, .text protocol))
        ∨ s ∈ settings localEndPoint remote := by
      rw [allSettings] at hs
      split at hs
      · exact .inr hs
      · rename_i hblank
        exact (List.mem_cons.mp hs).imp (⟨hblank, ·⟩) id
    rcases hcases with ⟨hblank, rfl⟩ | hs
    · exact ⟨fun h : protocol = [] => hblank (by rw [h]; rfl), hprotocol, hnames _ (by simp)⟩
    · simp only [settings, List.mem_cons, List.not_mem_nil, or_false] at hs
      rcases hs with rfl | rfl | rfl | rfl
      · exact ⟨(dotted_text _).1, (dotted_text _).plain, hnames _ (by simp)⟩
      · exact ⟨(dotted_decimal _).1, (dotted_decimal _).plain, hnames _ (by simp)⟩
      · exact ⟨(dotted_text _).1, (dotted_text _).plain, hnames _ (by simp)⟩
      · exact ⟨(dotted_decimal _).1, (dotted_decimal _).plain, hnames _ (by simp)⟩
  rw [startArgs_eq, Processes.split_line]
  · rw [List.map_flatMap]
    rfl
  · intro piece hpiece
    obtain ⟨s, hs, hpiece⟩ := List.mem_flatMap.mp hpiece
    obtain ⟨hne, hplain, hname⟩ := hvalue s hs
    rcases List.mem_cons.mp hpiece with rfl | hpiece
    · exact ⟨List.cons_ne_nil _ _, hname⟩
    · obtain rfl := List.mem_singleton.mp hpiece
      exact ⟨hne, hplain⟩
  · intro piece hpiece
    obtain ⟨s, -, hpiece⟩ := List.mem_flatMap.mp hpiece
    rcases List.mem_cons.mp hpiece with rfl | hpiece
    · trivial
    · obtain rfl := List.mem_singleton.mp hpiece
      trivial

theorem sets_text {name : Text} (hname : Flags.classify ('-' :: name) = .flag name none)
    (hkind : formal name = some .text) (value : Text) :
    Flags.Sets formal name value (.text value) :=
  ⟨hname, by rw [hkind]; rfl⟩

theorem sets_port {name : Text} (hname : Flags.classify ('-' :: name) = .flag name none)
    (hkind : formal name = some .int) (e : IPEndPoint) :
    Flags.Sets formal name (decimal e.port) (.int e.port) := by
  have hport := e.port_le
  refine ⟨hname, ?_⟩
  rw [hkind, Option.bind_some, Kind.read, decimal, Flags.parseInt_toDigits (by omega),
    Option.map_some]

/-- Every flag of the command line is one that the process knows, with a value that it reads. -/
theorem sets_allSettings {s : Text × Text × Value}
    (hs : s ∈ allSettings localEndPoint remote protocol) : Flags.Sets formal s.1 s.2.1 s.2.2 := by
  have hsettings : ∀ s ∈ settings localEndPoint remote, Flags.Sets formal s.1 s.2.1 s.2.2 := by
    intro s hs
    simp only [settings, List.mem_cons, List.not_mem_nil, or_false] at hs
    rcases hs with rfl | rfl | rfl | rfl
    · exact sets_text rfl rfl _
    · exact sets_port rfl rfl _
    · exact sets_text rfl rfl _
    · exact sets_port rfl rfl _
  rw [allSettings] at hs
  split at hs
  · exact hsettings s hs
  · rcases List.mem_cons.mp hs with rfl | hs
    · exact sets_text rfl rfl _
    · exact hsettings s hs

/-- The protocol that the process goes by. -/
def protoOf (protocol : Text) : Text :=
  if isNullOrWhiteSpace (some protocol) then "tcp".toList else protocol

def networkOf (protocol : Text) : Option Network :=
  if protoOf protocol = "tcp".toList then some .tcp
  else if protoOf protocol = "udp".toList then some .udp
  else none

theorem parseHostContainerAddrs_startArgs {E : Type} (parseIPv6 : Text → Option IP)
    (localEndPoint remote : IPEndPoint) (hprotocol : Plain protocol) :
    parseHostContainerAddrs (E := E) parseIPv6 (split (startArgs localEndPoint remote protocol))
      = match networkOf protocol with
        | some network => .ok (localEndPoint.addr network, remote.addr network)
        | none => .error (.unsupportedProtocol (protoOf protocol)) := by
  have hparse := Flags.parse_pairs (allSettings localEndPoint remote protocol) fun s =>
    sets_allSettings
  obtain ⟨values, hvalues⟩ :
      ∃ values, values = (allSettings localEndPoint remote protocol).map fun s => (s.1, s.2.2) :=
    ⟨_, rfl⟩
  have hproto : textOf values "proto".toList "tcp".toList = protoOf protocol := by
    rw [hvalues, allSettings, protoOf]
    split <;> rfl
  have hhostIP : textOf values "frontend-ip".toList [] = localEndPoint.address.text := by
    rw [hvalues, allSettings]
    split <;> rfl
  have hhostPort : intOf values "frontend-port".toList (-1) = localEndPoint.port := by
    rw [hvalues, allSettings]
    split <;> rfl
  have hcontainerIP : textOf values "backend-ip".toList [] = remote.address.text := by
    rw [hvalues, allSettings]
    split <;> rfl
  have hcontainerPort : intOf values "backend-port".toList (-1) = remote.port := by
    rw [hvalues, allSettings]
    split <;> rfl
  rw [split_startArgs localEndPoint remote hprotocol, parseHostContainerAddrs, hparse, ← hvalues]
  simp only [hproto, hhostIP, hhostPort, hcontainerIP, hcontainerPort, parseIP_text, networkOf]
  by_cases htcp : protoOf protocol = "tcp".toList
  · rw [if_pos htcp, if_pos htcp]
    rfl
  · rw [if_neg htcp, if_neg htcp]
    by_cases hudp : protoOf protocol = "udp".toList
    · rw [if_pos hudp, if_pos hudp]
      rfl
    · rw [if_neg hudp, if_neg hudp]

end CommandLine

/-! ## The engine and its forwarders -/

section Forwarders

variable {E : Type}

theorem main_startArgs (listen : IpVersion → Addr → Except E Addr) (parseIPv6 : Text → Option IP)
    (localEndPoint remote : IPEndPoint) {protocol : Text} (hprotocol : Plain protocol) :
    main listen parseIPv6 (split (startArgs localEndPoint remote protocol))
      = match networkOf protocol with
        | some network =>
          ((listen .ipv4 (localEndPoint.addr network)).map fun addr =>
            ⟨.ipv4, addr, remote.addr network⟩).mapError .newProxy
        | none => .error (.unsupportedProtocol (protoOf protocol)) := by
  rw [main, parseHostContainerAddrs_startArgs parseIPv6 localEndPoint remote hprotocol]
  cases networkOf protocol with
  | none => rfl
  | some network => rfl

/-- A key and a target of the engine, and the end points that it makes of them. -/
structure Names (key : ForwarderKey) (target : String)
    (localEndPoint remote : IPEndPoint) : Prop where
  address : key.address.toList = localEndPoint.address.text
  localPort : localEndPoint.port = key.port
  target : target.toList = remote.address.text
  remotePort : remote.port = key.port

theorem toList_port (n : Nat) : (toString n).toList = decimal n := by
  rw [Nat.toString_eq_ofList_toDigits, String.toList_ofList]
  rfl

/-- The engine's list of arguments is what Windows makes of the command line. -/
theorem split_startForwarder {key : ForwarderKey} {target : String}
    {localEndPoint remote : IPEndPoint}
    (hnames : Names key target localEndPoint remote) (hprotocol : Plain key.protocol.toList)
    (hblank : isNullOrWhiteSpace (some key.protocol.toList) = false) :
    split (startArgs localEndPoint remote key.protocol.toList)
      = ["-proto", key.protocol, "-frontend-ip", key.address, "-frontend-port", toString key.port,
          "-backend-ip", target, "-backend-port", toString key.port].map String.toList := by
  rw [split_startArgs localEndPoint remote hprotocol, allSettings, hblank,
    if_neg Bool.false_ne_true]
  have hremote : remote.port = localEndPoint.port := hnames.remotePort.trans hnames.localPort.symm
  simp only [List.map_cons, List.map_nil, toList_port, hnames.address, hnames.target,
    ← hnames.localPort, settings, hremote]
  rfl

/-- Whatever the end points are, and whatever the protocol is as long as it needs no quotes, the
process reads from the command line the end points that it was made of: it listens at the local
one, for IPv4, and has the remote one as its backend.  Another protocol than TCP and UDP ends it.
The process that the engine starts for a key is this one, with the key's port on both sides. -/
theorem process_reads_endpoints (W : World) (listen : IpVersion → Addr → Except E Addr)
    (parseIPv6 : Text → Option IP) {key : ForwarderKey} {target : String}
    {localEndPoint remote : IPEndPoint} (hnames : Names key target localEndPoint remote)
    (hprotocol : Plain key.protocol.toList)
    (hblank : isNullOrWhiteSpace (some key.protocol.toList) = false) :
    (∃ args : List String,
      startForwarder W key target = (do
        ask W (.startProcess (.forwarder key) args)
        let exited : Bool ← ask W (.waitForExit (.forwarder key))
        if exited = true then Eff.throw (.containerEngine "Failed to start the proxy.")
          else return ()) ∧
      args.map String.toList = split (startArgs localEndPoint remote key.protocol.toList) ∧
      main listen parseIPv6 (args.map String.toList)
        = match networkOf key.protocol.toList with
          | some network =>
            ((listen .ipv4 (localEndPoint.addr network)).map fun addr =>
              ⟨.ipv4, addr, remote.addr network⟩).mapError .newProxy
          | none => .error (.unsupportedProtocol key.protocol.toList)) ∧
    ∀ (frontend backend : IPEndPoint) (protocol : Text), Plain protocol →
      main listen parseIPv6 (split (startArgs frontend backend protocol))
        = match networkOf protocol with
          | some network =>
            ((listen .ipv4 (frontend.addr network)).map fun addr =>
              ⟨.ipv4, addr, backend.addr network⟩).mapError .newProxy
          | none => .error (.unsupportedProtocol (protoOf protocol)) := by
  have hargs := split_startForwarder hnames hprotocol hblank
  have hport : key.port ≤ 65535 := hnames.localPort ▸ localEndPoint.port_le
  have hproto : protoOf key.protocol.toList = key.protocol.toList := by
    rw [protoOf, hblank, if_neg Bool.false_ne_true]
  refine ⟨⟨_, ?_, hargs.symm, ?_⟩, fun frontend backend protocol hplain =>
    main_startArgs listen parseIPv6 frontend backend hplain⟩
  · rw [startForwarder, if_pos hport]
  · rw [← hargs, main_startArgs listen parseIPv6 localEndPoint remote hprotocol, hproto]

/-- A world in which nothing answers. -/
def silent : World := ⟨fun _ _ => .error (.external ""), fun _ => 0, fun _ => 0, some⟩

def loopback80 : IPEndPoint := ⟨⟨127, 0, 0, 1⟩, 80, by decide⟩

def wsl80 : IPEndPoint := ⟨⟨172, 20, 0, 2⟩, 80, by decide⟩

def wsl8080 : IPEndPoint := ⟨⟨172, 20, 0, 2⟩, 8080, by decide⟩

theorem http_names : Names ⟨"127.0.0.1", 80, "tcp"⟩ "172.20.0.2" loopback80 wsl80 :=
  ⟨by decide, rfl, by decide, rfl⟩

theorem process_reads_endpoints_http :
    (∃ args : List String,
      startForwarder silent ⟨"127.0.0.1", 80, "tcp"⟩ "172.20.0.2" = (do
        ask silent (.startProcess (.forwarder ⟨"127.0.0.1", 80, "tcp"⟩) args)
        let exited : Bool ← ask silent (.waitForExit (.forwarder ⟨"127.0.0.1", 80, "tcp"⟩))
        if exited = true then Eff.throw (.containerEngine "Failed to start the proxy.")
          else return ()) ∧
      args.map String.toList = split (startArgs loopback80 wsl80 "tcp".toList) ∧
      main (E := Unit) (fun _ addr => .ok addr) (fun _ => none) (args.map String.toList)
        = .ok ⟨.ipv4, ⟨.tcp, v4InV6Prefix ++ [127, 0, 0, 1], 80⟩,
            ⟨.tcp, v4InV6Prefix ++ [172, 20, 0, 2], 80⟩⟩) ∧
    main (E := Unit) (fun _ addr => .ok addr) (fun _ => none)
        (split (startArgs loopback80 wsl8080 "udp".toList))
      = .ok ⟨.ipv4, ⟨.udp, v4InV6Prefix ++ [127, 0, 0, 1], 80⟩,
          ⟨.udp, v4InV6Prefix ++ [172, 20, 0, 2], 8080⟩⟩ := by
  obtain ⟨hengine, hall⟩ := process_reads_endpoints (E := Unit) silent (fun _ addr => .ok addr)
    (fun _ => none) http_names (by decide) (by decide)
  exact ⟨hengine, hall loopback80 wsl8080 "udp".toList (by decide)⟩

end Forwarders

end ContainerDesktop.PortForwarder
