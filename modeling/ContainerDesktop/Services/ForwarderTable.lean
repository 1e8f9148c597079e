import ContainerDesktop.Services.PortMessages

/-!
# The table of forwarders

A `Table` says which forwarders there are, and for which interface each was started.
The engine knows the keys only (`Shows`).  `Table.forward` is what enabling or
disabling ports on one interface does to it, and `Table.message` what a line of the
socket does; `enablePortForwardingInterface_shows` and `forwardPort_shows` say that
the engine does the same to its keys, as long as nothing outside of it fails.
-/

namespace ContainerDesktop.Services

/-! ## The network -/

/-- The network interfaces of the machine with their addresses. -/
structure Network where
  interfaces : List NetworkInterface
  unicast : String → List UnicastAddress
  /-- Only an interface that is there has addresses. -/
  listed : ∀ id, unicast id ≠ [] → ∃ i ∈ interfaces, i.id = id

namespace Network

/-- The IPv4 addresses of an interface. -/
def addresses (N : Network) (id : String) : List String :=
  ((N.unicast id).filter (·.interNetwork)).map (·.address)

/-- The interface that UDP ports are forwarded on, selected or not. -/
def loopback (N : Network) : Option NetworkInterface := N.interfaces.find? (·.loopback)

theorem listed_of_mem {N : Network} {id a : String} (h : a ∈ N.addresses id) :
    ∃ i ∈ N.interfaces, i.id = id := by
  refine N.listed id fun hnil => ?_
  rw [addresses, hnil] at h
  exact nomatch h

end Network

/-- The world on a machine with the network `N`. -/
def World.on (W : World) (N : Network) : World where
  reply := fun n r =>
    match r with
    | .getAllNetworkInterfaces => .ok N.interfaces
    | .getIPProperties id => .ok (N.unicast id)
    | r => W.reply n r
  dataDistroTimer := W.dataDistroTimer
  pgrepTimer := W.pgrepTimer
  parseAddress := W.parseAddress

/-- What `GetWslAddress` asks for. -/
abbrev ipAddrShow : Request :=
  command "ip addr show eth0 | grep \"inet\\b\" | awk '\x7bprint $2\x7d' | cut -d/ -f1"

/-- Nothing outside of the engine fails when it forwards a port. -/
structure Serves (W : World) : Prop where
  address : ∀ n, ∃ lines a, W.reply n ipAddrShow = .ok (true, lines) ∧
    W.parseAddress (lines.headD "") = some a
  starts : ∀ n key args, W.reply n (.startProcess (.forwarder key) args) = .ok ()
  runs : ∀ n key, W.reply n (.waitForExit (.forwarder key)) = .ok false
  exited : ∀ n key, ∃ exited, W.reply n (.hasExited (.forwarder key)) = .ok exited
  kills : ∀ n key, W.reply n (.kill (.forwarder key)) = .ok ()

theorem serves_calm : Serves calm :=
  ⟨fun _ => ⟨[], "", rfl, rfl⟩, fun _ _ _ => rfl, fun _ _ => rfl, fun _ _ => ⟨false, rfl⟩,
    fun _ _ => rfl⟩

/-! ## Tables -/

/-- The interface that the forwarder of a key was started for, if there is one. -/
abbrev Table := ForwarderKey → Option String

def ForwarderKey.portAndProto (key : ForwarderKey) : PortAndProtocol := ⟨key.port, key.protocol⟩

namespace Table

/-- The forwarders of `ports` at the addresses of an interface are stopped, and when `enabled`
started again.  There is no end point with a port above 65535. -/
def put (id : String) (enabled : Bool) (addresses : List String) (ports : List PortAndProtocol)
    (t : Table) : Table := fun key =>
  if key.address ∈ addresses ∧ key.portAndProto ∈ ports then
    if enabled = true ∧ key.port ≤ 65535 then some id else none
  else t key

def forward (N : Network) (enabled : Bool) (ports : List PortAndProtocol) (t : Table)
    (id : String) : Table :=
  t.put id enabled (N.addresses id) ports

/-- The interfaces that a line about a port reaches: the selected ones, and for UDP the loopback. -/
def reached (N : Network) (selected : List String) (p : PortAndProtocol) : List String :=
  (N.interfaces.filter (·.id ∈ selected)).map (·.id) ++
    if p.protocol = "udp" then (N.loopback.map (·.id)).toList else []

/-- A line about `p`. -/
def message (N : Network) (selected : List String) (enabled : Bool)
    (p : PortAndProtocol) (t : Table) : Table :=
  (reached N selected p).foldl (forward N enabled [p]) t

theorem mem_reached {N : Network} {selected : List String} {p : PortAndProtocol} {id : String} :
    id ∈ reached N selected p ↔ (∃ i ∈ N.interfaces, i.id = id ∧ id ∈ selected) ∨
      (p.protocol = "udp" ∧ ∃ i, N.loopback = some i ∧ i.id = id) := by
  unfold reached
  rw [List.mem_append]
  refine or_congr ?_ ?_
  · constructor
    · intro h
      obtain ⟨i, hi, rfl⟩ := List.mem_map.mp h
      obtain ⟨hmem, hsel⟩ := List.mem_filter.mp hi
      exact ⟨i, hmem, rfl, by simpa using hsel⟩
    · intro h
      obtain ⟨i, hmem, rfl, hsel⟩ := h
      exact List.mem_map.mpr ⟨i, List.mem_filter.mpr ⟨hmem, by simpa using hsel⟩, rfl⟩
  · by_cases hudp : p.protocol = "udp"
    · simp [hudp]
    · simp [hudp]

theorem forward_of_mem {N : Network} {ports : List PortAndProtocol}
    {key : ForwarderKey} {id : String} (ha : key.address ∈ N.addresses id)
    (hp : key.portAndProto ∈ ports) (enabled : Bool) (t : Table) :
    t.forward N enabled ports id key = if enabled = true ∧ key.port ≤ 65535
      then some id else none :=
  if_pos ⟨ha, hp⟩

theorem forward_of_not {N : Network} {ports : List PortAndProtocol}
    {key : ForwarderKey} {id : String}
    (h : ¬ (key.address ∈ N.addresses id ∧ key.portAndProto ∈ ports)) (enabled : Bool) (t : Table) :
    t.forward N enabled ports id key = t key := if_neg h

theorem foldl_forward_of_not {N : Network} {p : PortAndProtocol} {key : ForwarderKey}
    (enabled : Bool) : ∀ {ids : List String} {t : Table},
      ¬ (key.portAndProto = p ∧ ∃ id ∈ ids, key.address ∈ N.addresses id) →
      ids.foldl (forward N enabled [p]) t key = t key := by
  intro ids
  induction ids with
  | nil => intro t _; rfl
  | cons id ids ih =>
    intro t h
    have hhead : ¬ (key.address ∈ N.addresses id ∧ key.portAndProto ∈ [p]) := fun hc =>
      h ⟨List.mem_singleton.mp hc.2, id, List.mem_cons_self, hc.1⟩
    have htail : ¬ (key.portAndProto = p ∧ ∃ id ∈ ids, key.address ∈ N.addresses id) :=
      fun ⟨hp, x, hx, ha⟩ => h ⟨hp, x, List.mem_cons_of_mem _ hx, ha⟩
    rw [List.foldl_cons, ih htail, forward_of_not hhead]

/-- The last interface with the address is the one that counts. -/
theorem foldl_forward_of_mem {N : Network} {p : PortAndProtocol} {key : ForwarderKey}
    (enabled : Bool) (hp : key.portAndProto = p) : ∀ {ids : List String} {t : Table},
      (∃ id ∈ ids, key.address ∈ N.addresses id) →
      ∃ id ∈ ids, key.address ∈ N.addresses id ∧ ids.foldl (forward N enabled [p]) t key
        = if enabled = true ∧ key.port ≤ 65535 then some id else none := by
  intro ids
  induction ids with
  | nil => intro t h; exact nomatch h
  | cons id ids ih =>
    intro t h
    by_cases htail : ∃ id ∈ ids, key.address ∈ N.addresses id
    · obtain ⟨x, hx, ha, hrun⟩ := ih (t := t.forward N enabled [p] id) htail
      exact ⟨x, List.mem_cons_of_mem _ hx, ha, hrun⟩
    · have ha : key.address ∈ N.addresses id := by
        obtain ⟨x, hx, ha⟩ := h
        rcases List.mem_cons.mp hx with rfl | hx
        · exact ha
        · exact absurd ⟨x, hx, ha⟩ htail
      refine ⟨id, List.mem_cons_self, ha, ?_⟩
      rw [List.foldl_cons, foldl_forward_of_not enabled fun hc => htail hc.2]
      exact forward_of_mem ha (List.mem_singleton.mpr hp) enabled t

theorem put_nil_ports (id : String) (enabled : Bool) (addresses : List String) (t : Table) :
    t.put id enabled addresses [] = t := by
  funext key
  exact if_neg fun h => nomatch h.2

theorem put_nil_addresses (id : String) (enabled : Bool)
    (ports : List PortAndProtocol) (t : Table) : t.put id enabled [] ports = t := by
  funext key
  exact if_neg fun h => nomatch h.1

theorem put_cons_ports (id : String) (enabled : Bool) (addresses : List String)
    (p : PortAndProtocol) (ports : List PortAndProtocol) (t : Table) :
    t.put id enabled addresses (p :: ports)
      = (t.put id enabled addresses [p]).put id enabled addresses ports := by
  funext key
  unfold put
  by_cases haddress : key.address ∈ addresses
  · by_cases hport : key.portAndProto ∈ ports
    · simp [haddress, hport]
    · simp [haddress, hport]
  · simp [haddress]

theorem put_cons_addresses (id : String) (enabled : Bool) (a : String) (addresses : List String)
    (ports : List PortAndProtocol) (t : Table) :
    t.put id enabled (a :: addresses) ports
      = (t.put id enabled [a] ports).put id enabled addresses ports := by
  funext key
  unfold put
  by_cases hport : key.portAndProto ∈ ports
  · by_cases haddress : key.address ∈ addresses
    · simp [haddress, hport]
    · simp [haddress, hport]
  · simp [hport]

end Table

/-- The engine has the forwarders of the table. -/
def Shows (s : EngineState) (t : Table) : Prop :=
  ∀ key, key ∈ s.portForwarders.items ↔ (t key).isSome = true

/-- The list of ports and the DNS configurator stay. -/
structure Undisturbed (s s' : EngineState) : Prop where
  ports : s'.ports = s.ports
  dnsConfigurator : s'.dnsConfigurator = s.dnsConfigurator

instance : IsPreorder EngineState Undisturbed where
  refl _ := ⟨rfl, rfl⟩
  trans _ _ _ h h' := ⟨h'.ports.trans h.ports, h'.dnsConfigurator.trans h.dnsConfigurator⟩

theorem Distinct.mem_insert {α : Type} [DecidableEq α] {t : Distinct α} {x y : α} :
    y ∈ (t.insert x).items ↔ y = x ∨ y ∈ t.items := by
  rw [Distinct.insert]
  split <;> rename_i h
  · exact ⟨.inr, fun hy => hy.elim (fun he => he ▸ h) id⟩
  · simp [or_comm]

theorem Distinct.mem_remove {α : Type} [DecidableEq α] {t : Distinct α} {x y : α} :
    y ∈ (t.remove x).items ↔ y ≠ x ∧ y ∈ t.items := t.nodup.mem_erase_iff

theorem Distinct.remove_of_not_mem {α : Type} [DecidableEq α] {t : Distinct α} {x : α}
    (h : x ∉ t.items) : t.remove x = t := by
  unfold Distinct.remove
  congr 1
  exact List.erase_of_not_mem h

/-! ## The engine -/

section Engine

variable {W : World}

/-- The computation ends normally, disturbs nothing else, and makes `f t` of a table `t`. -/
def Tables (f : Table → Table) (m : EngineM Unit) : Prop :=
  ∀ s t, Shows s t → ∃ s', m s = (.ok (), s') ∧ Undisturbed s s' ∧ Shows s' (f t)

theorem tables_pure : Tables id (pure ()) := fun s _ h => ⟨s, rfl, refl_of Undisturbed s, h⟩

theorem tables_seq {f g : Table → Table} {m k : EngineM Unit} (hm : Tables f m) (hk : Tables g k) :
    Tables (g ∘ f) (m >>= fun _ => k) := by
  intro s t h
  obtain ⟨s₁, hrun₁, hsame₁, h₁⟩ := hm s t h
  obtain ⟨s₂, hrun₂, hsame₂, h₂⟩ := hk s₁ (f t) h₁
  exact ⟨s₂, (Eff.bind_ok hrun₁).trans hrun₂, trans_of Undisturbed hsame₁ hsame₂, h₂⟩

theorem tables_forEach {ι : Type} {f : ι → Table → Table} {m : ι → EngineM Unit} (xs : List ι)
    (h : ∀ x ∈ xs, Tables (f x) (m x)) :
    Tables (fun t => xs.foldl (fun t x => f x t) t) (Eff.forEach m xs) := by
  induction xs with
  | nil => exact tables_pure
  | cons x xs ih =>
    obtain ⟨hx, hxs⟩ := List.forall_mem_cons.mp h
    exact tables_seq hx (ih hxs)

theorem Serves.ask_ok {r : Request} {reply : r.Reply} {s : EngineState}
    (h : W.reply (s.requests.count r) r = .ok reply) :
    ask W r s = (.ok reply, { s with requests := r :: s.requests }) := by
  rw [ask, h]

theorem serves_on (hW : Serves W) (N : Network) : Serves (W.on N) :=
  ⟨hW.address, hW.starts, hW.runs, hW.exited, hW.kills⟩

/-- Stopping a forwarder changes nothing of the engine. -/
theorem stopProcess_forwarder (hW : Serves W) (key : ForwarderKey) (s : EngineState) :
    ∃ requests, stopProcess W (.forwarder key) s = (.ok (), { s with requests := requests }) := by
  obtain ⟨exited, hexited⟩ := hW.exited (s.requests.count (.hasExited (.forwarder key))) key
  rw [stopProcess, Eff.bind_ok (Serves.ask_ok hexited)]
  cases exited with
  | true => exact ⟨_, rfl⟩
  | false => exact ⟨_, Serves.ask_ok (hW.kills _ key)⟩

theorem removeForwarder_run (hW : Serves W) (key : ForwarderKey) (s : EngineState) :
    ∃ requests, removeForwarder W key s
      = (.ok (),
        { s with requests := requests, portForwarders := s.portForwarders.remove key }) := by
  rw [removeForwarder, Eff.bind_ok (Eff.get_run s)]
  by_cases hmem : key ∈ s.portForwarders.items
  · obtain ⟨requests, hstop⟩ := stopProcess_forwarder hW key s
    rw [if_pos hmem, Eff.bind_ok hstop]
    exact ⟨requests, rfl⟩
  · rw [if_neg hmem, Distinct.remove_of_not_mem hmem]
    exact ⟨s.requests, rfl⟩

/-- No forwarder starts on a port that is too great. -/
theorem addForwarder_great (key : ForwarderKey) (h : ¬ key.port ≤ 65535) (target : String)
    (s : EngineState) : addForwarder W key target s = (.error .argumentOutOfRange, s) := by
  have hstart : startForwarder W key target s = (.error .argumentOutOfRange, s) := by
    rw [startForwarder, if_neg h, Eff.throw_run]
  rw [addForwarder, Eff.bind_error hstart]

theorem addForwarder_run (hW : Serves W) (key : ForwarderKey) (h : key.port ≤ 65535)
    (target : String) (s : EngineState) : ∃ requests, addForwarder W key target s = (.ok (),
      { s with requests := requests, portForwarders := s.portForwarders.insert key }) := by
  have hstart : ∃ requests, startForwarder W key target s
      = (.ok (), { s with requests := requests }) := by
    rw [startForwarder, if_pos h, Eff.bind_ok (Serves.ask_ok (hW.starts _ key _)),
      Eff.bind_ok (Serves.ask_ok (hW.runs _ key))]
    exact ⟨_, rfl⟩
  obtain ⟨requests, hstart⟩ := hstart
  exact ⟨requests, by rw [addForwarder, Eff.bind_ok hstart, Eff.modify_run]⟩

/-- A table with one key changed. -/
theorem shows_put {s s' : EngineState} {t : Table} (h : Shows s t) (id : String) (enabled : Bool)
    (p : PortAndProtocol) (a : String)
    (hs : ∀ key, key ∈ s'.portForwarders.items ↔
      if key = ⟨a, p.port, p.protocol⟩ then enabled = true ∧ p.port ≤ 65535
      else key ∈ s.portForwarders.items) : Shows s' (t.put id enabled [a] [p]) := by
  intro key
  have hkey : key.address ∈ [a] ∧ key.portAndProto ∈ [p] ↔ key = ⟨a, p.port, p.protocol⟩ := by
    cases key
    cases p
    simp [ForwarderKey.portAndProto]
  rw [hs key, Table.put]
  by_cases hk : key = ⟨a, p.port, p.protocol⟩
  · rw [if_pos hk, if_pos (hkey.mpr hk)]
    subst hk
    by_cases hstarts : enabled = true ∧ p.port ≤ 65535
    · rw [if_pos hstarts]
      exact iff_of_true hstarts rfl
    · rw [if_neg hstarts]
      exact iff_of_false hstarts fun hc => nomatch hc
  · rw [if_neg hk, if_neg fun hc => hk (hkey.mp hc)]
    exact h key

/-- One port at one address. -/
theorem tables_forwardOn (hW : Serves W) (id target : String) (enabled : Bool) (p : PortAndProtocol)
    (a : String) : Tables (Table.put id enabled [a] [p]) (forwardOn W target enabled p a) := by
  intro s t h
  obtain ⟨requests, hremove⟩ := removeForwarder_run hW ⟨a, p.port, p.protocol⟩ s
  have hremoved : ∀ {enabled : Bool}, ¬ (enabled = true ∧ p.port ≤ 65535) → Shows { s with
      requests := requests, portForwarders := s.portForwarders.remove ⟨a, p.port, p.protocol⟩ }
      (t.put id enabled [a] [p]) := by
    intro enabled hnot
    refine shows_put h id enabled p a fun key => ?_
    by_cases hk : key = ⟨a, p.port, p.protocol⟩ <;> simp [Distinct.mem_remove, hk, hnot]
  cases enabled with
  | false =>
    refine ⟨_, Eff.catching_ok (Eff.bind_ok hremove), ⟨rfl, rfl⟩, hremoved ?_⟩
    exact fun hc => nomatch hc.1
  | true =>
    by_cases hport : p.port ≤ 65535
    · obtain ⟨requests', hadd⟩ := addForwarder_run hW ⟨a, p.port, p.protocol⟩ hport target
        { s with requests := requests,
                 portForwarders := s.portForwarders.remove ⟨a, p.port, p.protocol⟩ }
      refine ⟨_, Eff.catching_ok ((Eff.bind_ok hremove).trans hadd), ⟨rfl, rfl⟩, ?_⟩
      refine shows_put h id true p a fun key => ?_
      by_cases hk : key = ⟨a, p.port, p.protocol⟩ <;>
        simp [Distinct.mem_insert, Distinct.mem_remove, hk, hport]
    · have hgreat := addForwarder_great (W := W) ⟨a, p.port, p.protocol⟩ hport target
      refine ⟨_, Eff.catching_error ((Eff.bind_ok hremove).trans (hgreat _)), ⟨rfl, rfl⟩, ?_⟩
      exact hremoved fun hc => hport hc.2

/-- One port on one interface. -/
theorem tables_forwardOn_addresses (hW : Serves W) (id target : String) (enabled : Bool)
    (p : PortAndProtocol) (addresses : List String) :
    Tables (Table.put id enabled addresses [p])
      (Eff.forEach (forwardOn W target enabled p) addresses) := by
  have hfold : ∀ t : Table, addresses.foldl (fun t a => t.put id enabled [a] [p]) t
      = t.put id enabled addresses [p] := by
    induction addresses with
    | nil => intro t; exact (Table.put_nil_addresses id enabled [p] t).symm
    | cons a addresses ih =>
      intro t
      rw [List.foldl_cons, ih, Table.put_cons_addresses id enabled a addresses]
  have hrun := tables_forEach addresses fun a _ => tables_forwardOn hW id target enabled p a
  rw [funext hfold] at hrun
  exact hrun

theorem tables_forwardOn_ports (hW : Serves W) (id target : String) (enabled : Bool)
    (ports : List PortAndProtocol) (addresses : List String) :
    Tables (Table.put id enabled addresses ports)
      (Eff.forEach (fun p => Eff.forEach (forwardOn W target enabled p) addresses) ports) := by
  have hfold : ∀ t : Table, ports.foldl (fun t p => t.put id enabled addresses [p]) t
      = t.put id enabled addresses ports := by
    induction ports with
    | nil => intro t; exact (Table.put_nil_ports id enabled addresses t).symm
    | cons p ports ih =>
      intro t
      rw [List.foldl_cons, ih, Table.put_cons_ports id enabled addresses p ports]
  have hrun := tables_forEach ports fun p _ =>
    tables_forwardOn_addresses hW id target enabled p addresses
  rw [funext hfold] at hrun
  exact hrun

/-- The engine has a DNS configurator, as it has after every `Start`. -/
def EngineState.Configured (s : EngineState) : Prop := s.dnsConfigurator ≠ none

theorem targetAddress_run (hW : Serves W) {s : EngineState} (hs : s.Configured) :
    ∃ target requests, targetAddress W s = (.ok target, { s with requests := requests }) := by
  obtain ⟨forwarder, hdns⟩ := Option.ne_none_iff_exists'.mp hs
  obtain ⟨lines, a, hreply, hparse⟩ := hW.address (s.requests.count ipAddrShow)
  have hask : getWslAddress W s
      = (.ok (some (lines.headD "")), { s with requests := ipAddrShow :: s.requests }) := by
    rw [getWslAddress, Eff.bind_ok (Serves.ask_ok hreply)]
    rfl
  refine ⟨a, ipAddrShow :: s.requests, ?_⟩
  generalize ({ s with requests := ipAddrShow :: s.requests } : EngineState) = s' at hask ⊢
  rw [targetAddress, Eff.bind_ok (Eff.get_run s), hdns]
  dsimp only
  rw [Eff.bind_ok hask]
  dsimp only
  rw [hparse]
  rfl

/-- The computation makes `f t` of a table `t`, once the engine is configured. -/
def TablesOnce (f : Table → Table) (m : EngineM Unit) : Prop :=
  ∀ s t, s.Configured → Shows s t → ∃ s', m s = (.ok (), s') ∧ Undisturbed s s' ∧ Shows s' (f t)

/-- **Enabling or disabling ports on an interface.** -/
theorem enablePortForwardingInterface_shows (hW : Serves W) (N : Network) (i : NetworkInterface)
    (ports : List PortAndProtocol) (enabled : Bool) :
    TablesOnce (fun t => t.forward N enabled ports i.id)
      (enablePortForwardingInterface (W.on N) i ports enabled) := by
  intro s t hs h
  have hask : ask (W.on N) (.getIPProperties i.id) s = (.ok (N.unicast i.id), { s with
      requests := .getIPProperties i.id :: s.requests }) := rfl
  obtain ⟨target, requests, htarget⟩ := targetAddress_run (serves_on hW N)
    (s := { s with requests := .getIPProperties i.id :: s.requests }) hs
  obtain ⟨s', hrun, hsame, h'⟩ := tables_forwardOn_ports (serves_on hW N) i.id target enabled ports
    (N.addresses i.id) { s with requests := requests } t h
  refine ⟨s', ?_, ⟨hsame.ports, hsame.dnsConfigurator⟩, h'⟩
  rw [enablePortForwardingInterface, Eff.bind_ok hask, Eff.bind_ok htarget]
  exact hrun

theorem tablesOnce_pure : TablesOnce id (pure ()) := fun s t _ h => tables_pure s t h

theorem tablesOnce_seq {f g : Table → Table} {m k : EngineM Unit} (hm : TablesOnce f m)
    (hk : TablesOnce g k) : TablesOnce (g ∘ f) (m >>= fun _ => k) := by
  intro s t hs h
  obtain ⟨s₁, hrun₁, hsame₁, h₁⟩ := hm s t hs h
  have hs₁ : s₁.Configured := fun hnone => hs (hsame₁.dnsConfigurator.symm.trans hnone)
  obtain ⟨s₂, hrun₂, hsame₂, h₂⟩ := hk s₁ (f t) hs₁ h₁
  exact ⟨s₂, (Eff.bind_ok hrun₁).trans hrun₂, trans_of Undisturbed hsame₁ hsame₂, h₂⟩

theorem tablesOnce_forEach {ι : Type} {f : ι → Table → Table} {m : ι → EngineM Unit} (xs : List ι)
    (h : ∀ x ∈ xs, TablesOnce (f x) (m x)) :
    TablesOnce (fun t => xs.foldl (fun t x => f x t) t) (Eff.forEach m xs) := by
  induction xs with
  | nil => exact tablesOnce_pure
  | cons x xs ih =>
    obtain ⟨hx, hxs⟩ := List.forall_mem_cons.mp h
    exact tablesOnce_seq hx (ih hxs)

/-- The selected interfaces. -/
theorem forwardToInterfaces_shows (hW : Serves W) (N : Network) (cfg : Settings)
    (p : PortAndProtocol) (enabled : Bool) :
    TablesOnce (fun t => ((N.interfaces.filter (·.id ∈ cfg.portForwardInterfaces)).map (·.id)).foldl
        (Table.forward N enabled [p]) t)
      (forwardToInterfaces (W.on N) cfg p enabled) := by
  rw [forwardToInterfaces]
  split
  · rename_i hnone
    intro s t _ h
    exact ⟨s, rfl, refl_of Undisturbed s, by simpa [hnone] using h⟩
  · intro s t hs h
    have hask : ask (W.on N) .getAllNetworkInterfaces s = (.ok N.interfaces, { s with
        requests := .getAllNetworkInterfaces :: s.requests }) := rfl
    have hall := tablesOnce_forEach (N.interfaces.filter (·.id ∈ cfg.portForwardInterfaces))
      fun i _ => enablePortForwardingInterface_shows hW N i [p] enabled
    obtain ⟨s', hrun, hsame, h'⟩ := hall { s with
      requests := .getAllNetworkInterfaces :: s.requests } t hs h
    refine ⟨s', ?_, ⟨hsame.ports, hsame.dnsConfigurator⟩, ?_⟩
    · rw [Eff.bind_ok hask]
      exact hrun
    · dsimp only
      rw [List.foldl_map]
      exact h'

/-- The loopback interface.  Without one this throws, and nothing happens. -/
theorem forwardToLoopback_shows (hW : Serves W) (N : Network) (p : PortAndProtocol) (enabled : Bool)
    {s : EngineState} {t : Table} (hs : s.Configured) (h : Shows s t) :
    ∃ o s', forwardToLoopback (W.on N) p enabled s = (o, s') ∧ Undisturbed s s' ∧
      Shows s' ((N.loopback.map (·.id)).toList.foldl (Table.forward N enabled [p]) t) := by
  have hask : ask (W.on N) .getAllNetworkInterfaces s = (.ok N.interfaces, { s with
      requests := .getAllNetworkInterfaces :: s.requests }) := rfl
  rw [forwardToLoopback, Eff.bind_ok hask]
  rcases hl : N.loopback with _ | i
  · have hfind : N.interfaces.find? (·.loopback) = none := hl
    rw [hfind]
    exact ⟨_, _, rfl, ⟨rfl, rfl⟩, h⟩
  · have hfind : N.interfaces.find? (·.loopback) = some i := hl
    rw [hfind]
    obtain ⟨s', hrun, hsame, h'⟩ := enablePortForwardingInterface_shows hW N i [p] enabled { s with
      requests := .getAllNetworkInterfaces :: s.requests } t hs h
    exact ⟨_, s', hrun, ⟨hsame.ports, hsame.dnsConfigurator⟩, h'⟩

/-! ### Lines -/

/-- What `ForwardPort` makes of a line: whether the port is opened, and the port.  A line that is
too short, or for IPv6, is passed over. -/
def heard (line : String) : Option (Bool × PortAndProtocol) :=
  match skipTwo line.toList with
  | none => none
  | some cmdLine =>
    if (parsePortForwardCmdLine cmdLine).1 = .any then
      some ("O".toList.isPrefixOf line.toList, (parsePortForwardCmdLine cmdLine).2)
    else none

theorem heard_command (enabled : Bool) (cmd : String) :
    heard ((if enabled then "O " else "C ") ++ cmd) =
      if (parsePortForwardCmdLine cmd.toList).1 = .any then
        some (enabled, (parsePortForwardCmdLine cmd.toList).2)
      else none := by
  rw [heard, skipTwo_command, enabled_command]

theorem forwardPort_unheard {line : String} (h : heard line = none) (cfg : Settings)
    (s : EngineState) : (forwardPort W cfg line s).2 = s := by
  rw [forwardPort_snd]
  unfold heard at h
  split at h <;> rename_i hskip
  · rw [forwardPortSteps, hskip]
    rfl
  · split at h <;> rename_i hip
    · cases h
    · rw [forwardPortSteps, hskip]
      dsimp only
      rw [if_neg hip]
      rfl

theorem forwardPortSteps_heard {line : String} {enabled : Bool} {p : PortAndProtocol}
    (h : heard line = some (enabled, p)) (cfg : Settings) :
    forwardPortSteps W cfg line = do
      updatePorts p enabled
      forwardToInterfaces W cfg p enabled
      if p.protocol = "udp" then forwardToLoopback W p enabled else return () := by
  unfold heard at h
  split at h <;> rename_i hskip
  · exact nomatch h
  · split at h <;> rename_i hip
    · obtain ⟨rfl, rfl⟩ := Prod.mk.inj (Option.some.inj h)
      rw [forwardPortSteps, hskip]
      exact if_pos hip
    · exact nomatch h

/-- **What a line does to the ports and to the forwarders.** -/
theorem forwardPort_shows (hW : Serves W) (N : Network) (cfg : Settings) {line : String}
    {enabled : Bool} {p : PortAndProtocol} (hline : heard line = some (enabled, p))
    {s : EngineState} {t : Table} (hs : s.Configured) (h : Shows s t) :
    (forwardPort (W.on N) cfg line s).2.ports = Mark.apply s.ports (portMark enabled p) ∧
      (forwardPort (W.on N) cfg line s).2.Configured ∧
      Shows (forwardPort (W.on N) cfg line s).2
        (t.message N cfg.portForwardInterfaces enabled p) := by
  obtain ⟨s₁, hrun₁, hsame₁, h₁⟩ := forwardToInterfaces_shows hW N cfg p enabled
    { s with ports := Mark.apply s.ports (portMark enabled p) } t hs h
  have hs₁ : s₁.Configured := fun hnone => hs (hsame₁.dnsConfigurator.symm.trans hnone)
  rw [forwardPort_snd, forwardPortSteps_heard hline, Eff.bind_ok (updatePorts_mark p enabled s),
    Eff.bind_ok hrun₁,
    Table.message, Table.reached, List.foldl_append]
  by_cases hudp : p.protocol = "udp"
  · rw [if_pos hudp, if_pos hudp]
    obtain ⟨o, s₂, hrun₂, hsame₂, h₂⟩ := forwardToLoopback_shows hW N p enabled hs₁ h₁
    rw [hrun₂]
    refine ⟨hsame₂.ports.trans hsame₁.ports, fun hnone => hs₁ ?_, h₂⟩
    exact hsame₂.dnsConfigurator.symm.trans hnone
  · rw [if_neg hudp, if_neg hudp]
    exact ⟨hsame₁.ports, hs₁, h₁⟩

/-! ### The keys alone -/

/-- A table that the engine shows, whoever the forwarders were started for. -/
def keysTable (s : EngineState) : Table := fun key =>
  if key ∈ s.portForwarders.items then some "" else none

theorem shows_keysTable (s : EngineState) : Shows s (keysTable s) := by
  intro key
  unfold keysTable
  by_cases h : key ∈ s.portForwarders.items <;> simp [h]

/-- The keys after one port on one interface. -/
theorem forwardOn_keys (hW : Serves W) (target : String) (enabled : Bool) (p : PortAndProtocol)
    (addresses : List String) (s : EngineState) :
    Undisturbed s (Eff.forEach (forwardOn W target enabled p) addresses s).2 ∧
      ∀ key, key ∈ (Eff.forEach (forwardOn W target enabled p) addresses s).2.portForwarders.items ↔
        if key.address ∈ addresses ∧ key.portAndProto = p then enabled = true ∧ key.port ≤ 65535
        else key ∈ s.portForwarders.items := by
  obtain ⟨s', hrun, hsame, h⟩ :=
    tables_forwardOn_addresses hW "" target enabled p addresses s (keysTable s) (shows_keysTable s)
  rw [hrun]
  refine ⟨hsame, fun key => ?_⟩
  have hiff : key.address ∈ addresses ∧ key.portAndProto ∈ [p] ↔
      key.address ∈ addresses ∧ key.portAndProto = p := and_congr Iff.rfl List.mem_singleton
  rw [h key, Table.put]
  by_cases hkey : key.address ∈ addresses ∧ key.portAndProto = p
  · rw [if_pos (hiff.mpr hkey), if_pos hkey]
    by_cases hstarts : enabled = true ∧ key.port ≤ 65535
    · rw [if_pos hstarts]
      exact iff_of_true rfl hstarts
    · rw [if_neg hstarts]
      exact iff_of_false (fun hc => nomatch hc) hstarts
  · rw [if_neg fun hc => hkey (hiff.mp hc), if_neg hkey]
    exact (shows_keysTable s key).symm

/-- The keys of a table after a line. -/
theorem isSome_message {N : Network} {selected : List String} {enabled : Bool} {p : PortAndProtocol}
    {t : Table} {key : ForwarderKey} :
    (t.message N selected enabled p key).isSome = true ↔
      if key.portAndProto = p ∧ ∃ id ∈ Table.reached N selected p, key.address ∈ N.addresses id then
        enabled = true ∧ key.port ≤ 65535
      else (t key).isSome = true := by
  by_cases hkey : key.portAndProto = p ∧
      ∃ id ∈ Table.reached N selected p, key.address ∈ N.addresses id
  · obtain ⟨id, -, -, hrun⟩ := Table.foldl_forward_of_mem enabled hkey.1 (t := t) hkey.2
    rw [if_pos hkey, Table.message, hrun]
    by_cases hstarts : enabled = true ∧ key.port ≤ 65535
    · rw [if_pos hstarts]
      exact iff_of_true rfl hstarts
    · rw [if_neg hstarts]
      exact iff_of_false (fun hc => nomatch hc) hstarts
  · rw [if_neg hkey, Table.message, Table.foldl_forward_of_not enabled hkey]

/-- The ports and the keys after a line. -/
theorem forwardPort_keys (hW : Serves W) (N : Network) (cfg : Settings) {line : String}
    {enabled : Bool} {p : PortAndProtocol} (hline : heard line = some (enabled, p))
    {s : EngineState} (hs : s.Configured) :
    (forwardPort (W.on N) cfg line s).2.ports = Mark.apply s.ports (portMark enabled p) ∧
      (forwardPort (W.on N) cfg line s).2.Configured ∧
      ∀ key, key ∈ (forwardPort (W.on N) cfg line s).2.portForwarders.items ↔
        if key.portAndProto = p ∧
            ∃ id ∈ Table.reached N cfg.portForwardInterfaces p, key.address ∈ N.addresses id then
          enabled = true ∧ key.port ≤ 65535
        else key ∈ s.portForwarders.items := by
  obtain ⟨hports, hconfigured, h⟩ := forwardPort_shows hW N cfg hline hs (shows_keysTable s)
  refine ⟨hports, hconfigured, fun key => ?_⟩
  rw [h key, isSome_message, ← shows_keysTable s key]

theorem mem_apply_portMark {ports : List PortAndProtocol} (h : ports.Nodup) {enabled : Bool}
    {p q : PortAndProtocol} : q ∈ Mark.apply ports (portMark enabled p) ↔
      if q = p then enabled = true else q ∈ ports := by
  unfold portMark
  cases enabled with
  | true =>
    rw [if_pos rfl, Mark.mem_apply_opens]
    by_cases hq : q = p <;> simp [hq]
  | false =>
    rw [if_neg Bool.false_ne_true, Mark.mem_apply_closes h]
    by_cases hq : q = p <;> simp [hq]

/-- Opening a port that is there, or closing one that is not, leaves the list alone. -/
theorem apply_portMark_eq {ports : List PortAndProtocol} {enabled : Bool} {p : PortAndProtocol}
    (h : enabled = true ↔ p ∈ ports) : Mark.apply ports (portMark enabled p) = ports := by
  unfold portMark
  cases enabled with
  | true => exact if_pos (h.mp rfl)
  | false => exact List.erase_of_not_mem fun hp => nomatch h.mpr hp

end Engine

end ContainerDesktop.Services
