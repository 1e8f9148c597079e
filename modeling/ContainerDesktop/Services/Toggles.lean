import ContainerDesktop.Services.ForwarderTable
import ContainerDesktop.Services.Sessions
import Mathlib.Logic.Function.Basic

/-!
# Toggles of interfaces between port messages

A check box of the main window starts a task that forwards the ports of the list on
its interface, one after the other, and afterwards adds the interface to the
selected ones, or takes it off them.  Lines of the socket come while it runs.

A line reaches the selected interfaces only.  One that comes between the two parts
of a task is missed by both, and one that changes the list under the `foreach` ends
the task with an exception.  `Desktop.Event.Harmless` says when neither happens, and
`no_port_is_missed` that then, whenever no task runs, the forwarders are the ones
that should be there.
-/

namespace ContainerDesktop.Services

/-- The first lines of `EnablePortForwardingInterface`: the addresses, and the target. -/
def beginForwarding (W : World) (i : NetworkInterface) : EngineM (List String × String) := do
  let unicast : List UnicastAddress ← ask W (.getIPProperties i.id)
  let addresses := (unicast.filter (·.interNetwork)).map (·.address)
  let target ← targetAddress W
  return (addresses, target)

theorem beginForwarding_run {W : World} (hW : Serves W) (N : Network) (i : NetworkInterface)
    {s : EngineState} (hs : s.Configured) : ∃ target requests,
    beginForwarding (W.on N) i s = (.ok (N.addresses i.id, target),
      { s with requests := requests }) := by
  have hask : ask (W.on N) (.getIPProperties i.id) s = (.ok (N.unicast i.id), { s with
      requests := .getIPProperties i.id :: s.requests }) := rfl
  obtain ⟨target, requests, htarget⟩ := targetAddress_run (serves_on hW N)
    (s := { s with requests := .getIPProperties i.id :: s.requests }) hs
  refine ⟨target, requests, ?_⟩
  rw [beginForwarding, Eff.bind_ok hask, Eff.bind_ok htarget]
  rfl

/-! ## The desktop -/

/-- How far the task of a toggle has come. -/
inductive Stage where
  | begun
  /-- In the `foreach`, with the version and the index of its enumerator. -/
  | iterating (addresses : List String) (target : String) (enabled : Bool) (version index : Nat)
  /-- Behind it, called with `enabled`. -/
  | enumerated (enabled : Bool)

/-- A task of `TogglePortForwardInterface` for one of the check boxes. -/
structure Toggle where
  box : Nat
  stage : Stage

/-- The engine and what the main window shares with it. -/
structure Desktop where
  engine : EngineState
  /-- `_version` of the list of ports. -/
  version : Nat
  /-- `Configuration.PortForwardInterfaces` -/
  selected : Distinct String
  /-- `Forwarded` of each check box. -/
  forwarded : Nat → Bool
  toggles : List Toggle

namespace Desktop

def settings (cfg : Settings) (s : Desktop) : Settings :=
  { cfg with portForwardInterfaces := s.selected.items }

/-- The desktop after a line of the socket. -/
def message (W : World) (cfg : Settings) (line : String) (s : Desktop) : Desktop :=
  { s with
    engine := (forwardPort W (s.settings cfg) line s.engine).2
    version := if (forwardPort W (s.settings cfg) line s.engine).2.ports = s.engine.ports
      then s.version else s.version + 1 }

inductive Event where
  | message (line : String)
  | click (box : Nat) (forwarded : Bool)
  | advance (box : Nat)
  /-- The enumerator throws, since the list was changed. -/
  | abort (box : Nat)
  /-- Something else throws. -/
  | fail (box : Nat)

/-- One step, with `box` the interfaces of the check boxes.  Interfaces of type loopback have
none. -/
inductive Step (W : World) (N : Network) (cfg : Settings) (box : Nat → NetworkInterface)
    (s : Desktop) : Event → Desktop → Prop
  | message (line : String) : Step W N cfg box s (.message line) (s.message (W.on N) cfg line)
  | click {n : Nat} (forwarded : Bool) (hmem : box n ∈ N.interfaces)
    (hloopback : (box n).loopback = false) :
    Step W N cfg box s (.click n forwarded)
      { s with
        forwarded := Function.update s.forwarded n forwarded
        toggles := ⟨n, .begun⟩ :: s.toggles }
  | start {pre post : List Toggle} {n : Nat} {addresses : List String} {target : String}
    {engine : EngineState} (h : s.toggles = pre ++ ⟨n, .begun⟩ :: post)
    (hrun : beginForwarding (W.on N) (box n) s.engine = (.ok (addresses, target), engine)) :
    Step W N cfg box s (.advance n)
      { s with
        engine := engine
        toggles := pre ++ ⟨n, .iterating addresses target (s.forwarded n) s.version 0⟩ :: post }
  | startFails {pre post : List Toggle} {n : Nat} {e : Exn} {engine : EngineState}
    (h : s.toggles = pre ++ ⟨n, .begun⟩ :: post)
    (hrun : beginForwarding (W.on N) (box n) s.engine = (.error e, engine)) :
    Step W N cfg box s (.fail n) { s with engine := engine, toggles := pre ++ post }
  | next {pre post : List Toggle} {n index : Nat} {addresses : List String} {target : String}
    {enabled : Bool} {p : PortAndProtocol}
    (h : s.toggles = pre ++ ⟨n, .iterating addresses target enabled s.version index⟩ :: post)
    (hp : s.engine.ports[index]? = some p) :
    Step W N cfg box s (.advance n)
      { s with
        engine := (Eff.forEach (forwardOn (W.on N) target enabled p) addresses s.engine).2
        toggles := pre ++ ⟨n, .iterating addresses target enabled s.version (index + 1)⟩ :: post }
  | ends {pre post : List Toggle} {n index : Nat} {addresses : List String} {target : String}
    {enabled : Bool}
    (h : s.toggles = pre ++ ⟨n, .iterating addresses target enabled s.version index⟩ :: post)
    (hp : s.engine.ports[index]? = none) :
    Step W N cfg box s (.advance n) { s with toggles := pre ++ ⟨n, .enumerated enabled⟩ :: post }
  | changed {pre post : List Toggle} {n version index : Nat} {addresses : List String}
    {target : String} {enabled : Bool}
    (h : s.toggles = pre ++ ⟨n, .iterating addresses target enabled version index⟩ :: post)
    (hversion : version ≠ s.version) :
    Step W N cfg box s (.abort n) { s with toggles := pre ++ post }
  | record {pre post : List Toggle} {n : Nat} {enabled : Bool}
    (h : s.toggles = pre ++ ⟨n, .enumerated enabled⟩ :: post) :
    Step W N cfg box s (.advance n)
      { s with
        selected := if s.forwarded n then s.selected.insert (box n).id
          else s.selected.remove (box n).id
        toggles := pre ++ post }

/-- The events of a run, the last one first, each with `P` in the state before it. -/
inductive Reaches (W : World) (N : Network) (cfg : Settings) (box : Nat → NetworkInterface)
    (P : Desktop → Event → Prop) (s : Desktop) : List Event → Desktop → Prop
  | refl : Reaches W N cfg box P s [] s
  | step {events : List Event} {e : Event} {t u : Desktop} (h : Reaches W N cfg box P s events t)
    (hP : P t e) (hstep : Step W N cfg box t e u) : Reaches W N cfg box P s (e :: events) u

/-! ## What should hold -/

/-- The forwarders are the ones for the ports of the list on the selected interfaces, and for UDP on
the loopback. -/
def Exact (N : Network) (s : Desktop) : Prop :=
  ∀ key, key ∈ s.engine.portForwarders.items ↔ key.portAndProto ∈ s.engine.ports ∧
    ∃ id ∈ Table.reached N s.selected.items key.portAndProto, key.address ∈ N.addresses id

/-- The addresses of the interfaces are distinct. -/
structure Apart (N : Network) : Prop where
  ids : (N.interfaces.map (·.id)).Nodup
  addresses : ∀ {id id' a : String}, a ∈ N.addresses id → a ∈ N.addresses id' → id = id'

/-- An engine that runs, with no task for a check box. -/
structure Idle (N : Network) (s : Desktop) : Prop where
  configured : s.engine.Configured
  nodup : s.engine.ports.Nodup
  ports : ∀ p ∈ s.engine.ports, p.port ≤ 65535
  toggles : s.toggles = []
  exact : Exact N s

/-- The forwarders that a line asks for can be started. -/
def Event.Starts : Event → Prop
  | .message line => ∀ p, heard line = some (true, p) → p.port ≤ 65535
  | .click .. | .advance _ | .abort _ | .fail _ => True

/-! ## Which events do no harm -/

/-- The task was called with `v`, and so it will record. -/
def Points (forwarded : Nat → Bool) (v : Bool) (t : Toggle) : Prop :=
  forwarded t.box = v ∧
    match t.stage with
    | .begun => True
    | .iterating _ _ enabled _ _ | .enumerated enabled => enabled = v

/-- A line about `p` passes a task by: it does not change the list under the `foreach`, and it
neither starts nor leaves a forwarder that the task takes no more notice of. -/
def Passes (N : Network) (box : Nat → NetworkInterface) (s : Desktop) (enabled : Bool)
    (p : PortAndProtocol) (t : Toggle) : Prop :=
  match t.stage with
  | .begun => True
  | .iterating _ _ forwards _ index =>
    (enabled = true ↔ p ∈ s.engine.ports) ∧
      (forwards = false → p ∈ s.engine.ports.take index → (box t.box).id ∈ s.selected.items →
        N.addresses (box t.box).id = [])
  | .enumerated true =>
    (enabled = true ↔ p ∈ s.engine.ports) ∨ (box t.box).id ∈ s.selected.items ∨
      N.addresses (box t.box).id = []
  | .enumerated false =>
    enabled = true → (box t.box).id ∈ s.selected.items → N.addresses (box t.box).id = []

/-- **A line passes the tasks by, and a click does not go against a task for the same
interface.** -/
def Event.Harmless (N : Network) (box : Nat → NetworkInterface) (s : Desktop) : Event → Prop
  | .message line => ∀ enabled p, heard line = some (enabled, p) →
      ∀ t ∈ s.toggles, Passes N box s enabled p t
  | .click n forwarded => ∀ t ∈ s.toggles, (box t.box).id = (box n).id →
      Points (Function.update s.forwarded n forwarded) forwarded t
  | .advance _ | .abort _ | .fail _ => True

/-! ## The invariant -/

/-- The task has done what it does for `p`. -/
def Done (ports : List PortAndProtocol) (p : PortAndProtocol) (t : Toggle) : Prop :=
  match t.stage with
  | .begun => False
  | .iterating _ _ _ _ index => p ∈ ports.take index
  | .enumerated _ => p ∈ ports

/-- Some task for the interface has. -/
def AnyDone (box : Nat → NetworkInterface) (s : Desktop) (id : String)
    (p : PortAndProtocol) : Prop :=
  ∃ t ∈ s.toggles, (box t.box).id = id ∧ Done s.engine.ports p t

/-- UDP on the loopback. -/
def UdpLoopback (N : Network) (id : String) (p : PortAndProtocol) : Prop :=
  p.protocol = "udp" ∧ ∃ i, N.loopback = some i ∧ i.id = id

/-- The interface forwards `p` when all its tasks point to `v`. -/
def Forwarding (box : Nat → NetworkInterface) (s : Desktop) (v : Bool) (id : String)
    (p : PortAndProtocol) : Prop :=
  if v then id ∈ s.selected.items ∨ AnyDone box s id p
  else id ∈ s.selected.items ∧ ¬ AnyDone box s id p

/-- The tasks for an interface point to `v`, and the forwarders at its addresses are as far as they
have brought them. -/
structure Settles (N : Network) (box : Nat → NetworkInterface) (s : Desktop) (v : Bool)
    (id : String) : Prop where
  points : ∀ t ∈ s.toggles, (box t.box).id = id → Points s.forwarded v t
  keys : ∀ key, key.address ∈ N.addresses id → (key ∈ s.engine.portForwarders.items ↔
    key.portAndProto ∈ s.engine.ports ∧
      (UdpLoopback N id key.portAndProto ∨ Forwarding box s v id key.portAndProto))

/-- The enumerator of a task has not been overtaken. -/
def Fresh (N : Network) (box : Nat → NetworkInterface) (s : Desktop) (t : Toggle) : Prop :=
  box t.box ∈ N.interfaces ∧ (box t.box).loopback = false ∧
    match t.stage with
    | .iterating addresses _ _ version _ =>
      addresses = N.addresses (box t.box).id ∧ version = s.version
    | .begun | .enumerated _ => True

structure Invariant (N : Network) (box : Nat → NetworkInterface) (s : Desktop) : Prop where
  configured : s.engine.Configured
  nodup : s.engine.ports.Nodup
  ports : ∀ p ∈ s.engine.ports, p.port ≤ 65535
  fresh : ∀ t ∈ s.toggles, Fresh N box s t
  settles : ∀ id, ∃ v, Settles N box s v id
  within : ∀ key ∈ s.engine.portForwarders.items, ∃ id, key.address ∈ N.addresses id

section Invariant

variable {N : Network} {box : Nat → NetworkInterface} {s s' : Desktop}

theorem not_udpLoopback (hN : Apart N) {n : Nat} (hmem : box n ∈ N.interfaces)
    (hloopback : (box n).loopback = false) (p : PortAndProtocol) :
    ¬ UdpLoopback N (box n).id p := by
  intro ⟨_, i, hi, hid⟩
  have hself : i = box n :=
    List.inj_on_of_nodup_map hN.ids (List.mem_of_find?_eq_some hi) hmem hid
  have htrue : i.loopback = true := by simpa using List.find?_some hi
  rw [hself, hloopback] at htrue
  exact nomatch htrue

/-- On an interface of the network, a line reaches the selected ones and the loopback. -/
theorem mem_reached_iff {id : String} {selected : List String} (hid : ∃ i ∈ N.interfaces, i.id = id)
    (p : PortAndProtocol) :
    id ∈ Table.reached N selected p ↔ UdpLoopback N id p ∨ id ∈ selected := by
  rw [Table.mem_reached, or_comm]
  refine or_congr Iff.rfl ⟨fun ⟨_, _, _, h⟩ => h, fun h => ?_⟩
  obtain ⟨i, hi, he⟩ := hid
  exact ⟨i, hi, he, h⟩

/-- With no task the invariant is what should hold. -/
theorem Invariant.exact (h : Invariant N box s) (hnone : s.toggles = []) : Exact N s := by
  have hdone : ∀ id p, ¬ AnyDone box s id p := by
    intro id p ⟨t, ht, _⟩
    rw [hnone] at ht
    exact nomatch ht
  have hforwarding : ∀ v id p, Forwarding box s v id p ↔ id ∈ s.selected.items := by
    intro v id p
    unfold Forwarding
    cases v <;> simp [hdone]
  intro key
  constructor
  · intro hkey
    obtain ⟨id, ha⟩ := h.within key hkey
    obtain ⟨v, hv⟩ := h.settles id
    obtain ⟨hport, hor⟩ := (hv.keys key ha).mp hkey
    rw [hforwarding] at hor
    exact ⟨hport, id, (mem_reached_iff (Network.listed_of_mem ha) _).mpr hor, ha⟩
  · intro ⟨hport, id, hid, ha⟩
    obtain ⟨v, hv⟩ := h.settles id
    rw [hv.keys key ha, hforwarding]
    exact ⟨hport, (mem_reached_iff (Network.listed_of_mem ha) _).mp hid⟩

theorem Idle.invariant (hN : Apart N) (h : Idle N s) : Invariant N box s where
  configured := h.configured
  nodup := h.nodup
  ports := h.ports
  fresh := by
    intro t ht
    rw [h.toggles] at ht
    exact nomatch ht
  settles := by
    intro id
    refine ⟨true, ⟨fun t ht => ?_, fun key ha => ?_⟩⟩
    · rw [h.toggles] at ht
      exact nomatch ht
    · have hdone : ¬ AnyDone box s id key.portAndProto := by
        intro ⟨t, ht, _⟩
        rw [h.toggles] at ht
        exact nomatch ht
      rw [h.exact key]
      refine and_congr Iff.rfl ⟨fun ⟨id', hid', ha'⟩ => ?_, fun hor => ?_⟩
      · obtain rfl := hN.addresses ha ha'
        exact ((mem_reached_iff (Network.listed_of_mem ha) _).mp hid').imp_right .inl
      · refine ⟨id, (mem_reached_iff (Network.listed_of_mem ha) _).mpr
          (hor.imp_right fun hf => ?_), ha⟩
        exact hf.resolve_right hdone
  within := by
    intro key hkey
    obtain ⟨-, id, -, ha⟩ := (h.exact key).mp hkey
    exact ⟨id, ha⟩

/-! ### Steps of a task -/

/-- A step that leaves the engine's ports and forwarders alone. -/
theorem Settles.congr {v : Bool} {id : String} (h : Settles N box s v id)
    (hpoints : ∀ t ∈ s'.toggles, (box t.box).id = id → Points s'.forwarded v t)
    (hports : s'.engine.ports = s.engine.ports)
    (hkeys : s'.engine.portForwarders = s.engine.portForwarders)
    (hforwarding : ∀ p ∈ s.engine.ports, Forwarding box s' v id p ↔ Forwarding box s v id p) :
    Settles N box s' v id := by
  refine ⟨hpoints, fun key ha => ?_⟩
  rw [hkeys, hports, h.keys key ha]
  exact and_congr_right fun hp => or_congr Iff.rfl (hforwarding _ hp).symm

theorem forwarding_congr {v : Bool} {id : String} {p : PortAndProtocol}
    (hselected : id ∈ s'.selected.items ↔ id ∈ s.selected.items)
    (hdone : AnyDone box s' id p ↔ AnyDone box s id p) :
    Forwarding box s' v id p ↔ Forwarding box s v id p := by
  unfold Forwarding
  rw [hselected, hdone]

/-- One task in another stage. -/
theorem anyDone_replace {pre post : List Toggle} {t t' : Toggle} (h : s.toggles = pre ++ t :: post)
    (h' : s'.toggles = pre ++ t' :: post) (hbox : t'.box = t.box)
    (hports : s'.engine.ports = s.engine.ports) {p : PortAndProtocol} {id : String}
    (hdone : (box t.box).id = id → (Done s.engine.ports p t' ↔ Done s.engine.ports p t)) :
    AnyDone box s' id p ↔ AnyDone box s id p := by
  unfold AnyDone
  simp only [h, h', hports, List.mem_append, List.mem_cons, or_and_right, exists_or, exists_eq_left,
    hbox, and_congr_right hdone]

/-- A task that is gone, for an interface that was not its own. -/
theorem anyDone_remove {pre post : List Toggle} {t : Toggle} (h : s.toggles = pre ++ t :: post)
    (h' : s'.toggles = pre ++ post) (hports : s'.engine.ports = s.engine.ports)
    {p : PortAndProtocol} {id : String} (hid : (box t.box).id ≠ id) :
    AnyDone box s' id p ↔ AnyDone box s id p := by
  unfold AnyDone
  simp only [h, h', hports, List.mem_append, List.mem_cons, or_and_right, exists_or,
    exists_eq_left, hid, false_and, false_or]

theorem points_replace {pre post : List Toggle} {t t' : Toggle} (h : s.toggles = pre ++ t :: post)
    (h' : s'.toggles = pre ++ t' :: post) (hbox : t'.box = t.box)
    (hforwarded : s'.forwarded = s.forwarded) {v : Bool} {id : String}
    (hpoints : ∀ x ∈ s.toggles, (box x.box).id = id → Points s.forwarded v x)
    (ht : Points s.forwarded v t → Points s.forwarded v t') :
    ∀ x ∈ s'.toggles, (box x.box).id = id → Points s'.forwarded v x := by
  rw [hforwarded]
  rw [h, List.forall_mem_append, List.forall_mem_cons] at hpoints
  rw [h', List.forall_mem_append, List.forall_mem_cons]
  obtain ⟨hpre, hmiddle, hpost⟩ := hpoints
  exact ⟨hpre, fun hid => ht (hmiddle (hbox ▸ hid)), hpost⟩

theorem Fresh.congr {t : Toggle} (h : Fresh N box s t) (hversion : s'.version = s.version) :
    Fresh N box s' t := by
  unfold Fresh at h ⊢
  rw [hversion]
  exact h

theorem fresh_replace {pre post : List Toggle} {t t' : Toggle} (h : s.toggles = pre ++ t :: post)
    (h' : s'.toggles = pre ++ t' :: post) (hversion : s'.version = s.version)
    (hfresh : ∀ x ∈ s.toggles, Fresh N box s x) (ht : Fresh N box s t → Fresh N box s t') :
    ∀ x ∈ s'.toggles, Fresh N box s' x := by
  rw [h, List.forall_mem_append, List.forall_mem_cons] at hfresh
  rw [h', List.forall_mem_append, List.forall_mem_cons]
  obtain ⟨hpre, hmiddle, hpost⟩ := hfresh
  exact ⟨fun x hx => (hpre x hx).congr hversion, (ht hmiddle).congr hversion,
    fun x hx => (hpost x hx).congr hversion⟩

theorem mem_replaced {pre post : List Toggle} {t : Toggle} (h : s.toggles = pre ++ t :: post) :
    t ∈ s.toggles := by
  rw [h]
  exact List.mem_append_right _ List.mem_cons_self

/-- A task that goes on without touching the forwarders. -/
theorem Invariant.replace (h : Invariant N box s) {pre post : List Toggle} {t t' : Toggle}
    (ht : s.toggles = pre ++ t :: post) (ht' : s'.toggles = pre ++ t' :: post)
    (hbox : t'.box = t.box) (hports : s'.engine.ports = s.engine.ports)
    (hkeys : s'.engine.portForwarders = s.engine.portForwarders)
    (hconfigured : s'.engine.dnsConfigurator = s.engine.dnsConfigurator)
    (hselected : s'.selected = s.selected) (hforwarded : s'.forwarded = s.forwarded)
    (hversion : s'.version = s.version) (hfresh : Fresh N box s t → Fresh N box s t')
    (hpoints : ∀ v, Points s.forwarded v t → Points s.forwarded v t')
    (hdone : ∀ p ∈ s.engine.ports, Done s.engine.ports p t' ↔ Done s.engine.ports p t) :
    Invariant N box s' where
  configured := fun hnone => h.configured (hconfigured.symm.trans hnone)
  nodup := hports ▸ h.nodup
  ports := hports ▸ h.ports
  fresh := fresh_replace ht ht' hversion h.fresh hfresh
  settles := by
    intro id
    obtain ⟨v, hv⟩ := h.settles id
    refine ⟨v, hv.congr (points_replace ht ht' hbox hforwarded hv.points (hpoints v))
      hports hkeys ?_⟩
    intro p hp
    refine forwarding_congr (by rw [hselected]) ?_
    exact anyDone_replace ht ht' hbox hports fun _ => hdone p hp
  within := hkeys ▸ h.within

theorem getElem?_mem_take {ports : List PortAndProtocol} {index : Nat} {p q : PortAndProtocol}
    (hp : ports[index]? = some p) : q ∈ ports.take (index + 1) ↔ q ∈ ports.take index ∨ q = p := by
  rw [List.take_add_one, hp, List.mem_append, Option.toList_some, List.mem_singleton]

/-- A task that forwards a port. -/
theorem Invariant.next {W : World} (hW : Serves W) (hN : Apart N) (h : Invariant N box s)
    {pre post : List Toggle} {n index : Nat} {addresses : List String} {target : String}
    {enabled : Bool} {p : PortAndProtocol}
    (ht : s.toggles = pre ++ ⟨n, .iterating addresses target enabled s.version index⟩ :: post)
    (hp : s.engine.ports[index]? = some p)
    (ht' : s'.toggles = pre ++ ⟨n, .iterating addresses target enabled s.version
      (index + 1)⟩ :: post)
    (hengine : s'.engine = (Eff.forEach (forwardOn (W.on N) target enabled p) addresses s.engine).2)
    (hselected : s'.selected = s.selected) (hforwarded : s'.forwarded = s.forwarded)
    (hversion : s'.version = s.version) : Invariant N box s' := by
  obtain ⟨hsame, hkeys⟩ := forwardOn_keys (serves_on hW N) target enabled p addresses s.engine
  rw [← hengine] at hsame hkeys
  obtain ⟨hmem, hloopback, haddresses, -⟩ := h.fresh _ (mem_replaced ht)
  dsimp only at hmem hloopback haddresses
  have hport : p ∈ s.engine.ports := List.mem_of_getElem? hp
  refine ⟨fun hnone => h.configured (hsame.dnsConfigurator.symm.trans hnone),
    hsame.ports.symm ▸ h.nodup, hsame.ports.symm ▸ h.ports, ?_, fun id => ?_, fun key hkey => ?_⟩
  · refine fresh_replace ht ht' hversion h.fresh fun hx => ?_
    exact ⟨hmem, hloopback, haddresses, rfl⟩
  · obtain ⟨v, hv⟩ := h.settles id
    refine ⟨v, points_replace ht ht' rfl hforwarded hv.points (fun hx => ⟨hx.1, hx.2⟩),
      fun key ha => ?_⟩
    rw [hkeys key, hsame.ports, haddresses]
    by_cases hid : (box n).id = id
    · have hforward : enabled = v := (hv.points _ (mem_replaced ht) hid).2
      by_cases hq : key.portAndProto = p
      · rw [if_pos ⟨hid ▸ ha, hq⟩, hq]
        have hsmall : key.port ≤ 65535 := h.ports key.portAndProto (hq ▸ hport)
        have hdone : AnyDone box s' id p := by
          refine ⟨⟨n, .iterating addresses target enabled s.version (index + 1)⟩,
            mem_replaced ht', hid, ?_⟩
          show p ∈ s'.engine.ports.take (index + 1)
          rw [hsame.ports, getElem?_mem_take hp]
          exact .inr rfl
        cases v with
        | true => exact iff_of_true ⟨hforward, hsmall⟩ ⟨hport, .inr (.inr hdone)⟩
        | false =>
          refine iff_of_false (fun hc => nomatch hforward.symm.trans hc.1) fun hc => ?_
          rcases hc.2 with hudp | hf
          · exact not_udpLoopback hN hmem hloopback p (hid ▸ hudp)
          · exact hf.2 hdone
      · rw [if_neg fun hc => hq hc.2, hv.keys key ha]
        refine and_congr_right fun hin => or_congr Iff.rfl
          (forwarding_congr (by rw [hselected]) ?_).symm
        refine anyDone_replace ht ht' rfl hsame.ports fun _ => ?_
        show key.portAndProto ∈ s.engine.ports.take (index + 1) ↔
          key.portAndProto ∈ s.engine.ports.take index
        rw [getElem?_mem_take hp]
        exact or_iff_left hq
    · have hnot : ¬ (key.address ∈ N.addresses (box n).id ∧ key.portAndProto = p) :=
        fun hc => hid (hN.addresses hc.1 ha)
      rw [if_neg hnot, hv.keys key ha]
      refine and_congr_right fun hin => or_congr Iff.rfl
        (forwarding_congr (by rw [hselected]) ?_).symm
      exact anyDone_replace ht ht' rfl hsame.ports fun hc => absurd hc hid
  · rw [hkeys key] at hkey
    split at hkey <;> rename_i hcase
    · exact ⟨(box n).id, haddresses ▸ hcase.1⟩
    · exact h.within key hkey

/-- With nothing done it does not matter where the tasks point to. -/
theorem forwarding_turn {v v' : Bool} {id : String} {p : PortAndProtocol}
    (h : AnyDone box s id p → v = v') : Forwarding box s v id p ↔ Forwarding box s v' id p := by
  by_cases hdone : AnyDone box s id p
  · rw [h hdone]
  · unfold Forwarding
    cases v <;> cases v' <;> simp [hdone]

/-- A task that has done something points where it was called to. -/
theorem points_eq_of_done {ports : List PortAndProtocol} {p : PortAndProtocol} {t : Toggle}
    (hdone : Done ports p t) {f f' : Nat → Bool} {v v' : Bool} (h : Points f v t)
    (h' : Points f' v' t) : v = v' := by
  obtain ⟨n, stage⟩ := t
  cases stage with
  | begun => exact absurd hdone id
  | iterating addresses target enabled version index => exact h.2.symm.trans h'.2
  | enumerated enabled => exact h.2.symm.trans h'.2

/-- A click. -/
theorem Invariant.click (h : Invariant N box s) {n : Nat} {forwarded : Bool}
    (hmem : box n ∈ N.interfaces) (hloopback : (box n).loopback = false)
    (hharmless : Event.Harmless N box s (.click n forwarded))
    (ht' : s'.toggles = ⟨n, .begun⟩ :: s.toggles) (hengine : s'.engine = s.engine)
    (hselected : s'.selected = s.selected)
    (hforwarded : s'.forwarded = Function.update s.forwarded n forwarded)
    (hversion : s'.version = s.version) : Invariant N box s' := by
  have hfresh : ∀ t ∈ s'.toggles, Fresh N box s' t := by
    rw [ht']
    exact List.forall_mem_cons.mpr ⟨⟨hmem, hloopback, trivial⟩, fun t ht =>
      (h.fresh t ht).congr hversion⟩
  have hdone : ∀ id p, AnyDone box s' id p ↔ AnyDone box s id p := by
    intro id p
    unfold AnyDone
    rw [ht', hengine]
    refine ⟨fun ⟨t, ht, hid, hd⟩ => ?_, fun ⟨t, ht, hid, hd⟩ =>
      ⟨t, List.mem_cons_of_mem _ ht, hid, hd⟩⟩
    rcases List.mem_cons.mp ht with rfl | ht
    · exact absurd hd fun hc => hc
    · exact ⟨t, ht, hid, hd⟩
  have hsame : ∀ {v id}, Settles N box s v id →
      (∀ t ∈ s'.toggles, (box t.box).id = id → Points s'.forwarded v t) →
      Settles N box s' v id := by
    intro v id hv hpoints
    refine hv.congr hpoints (by rw [hengine]) (by rw [hengine]) fun p _ => ?_
    exact forwarding_congr (by rw [hselected]) (hdone id p)
  refine ⟨hengine ▸ h.configured, hengine ▸ h.nodup, hengine ▸ h.ports, hfresh, fun id => ?_,
    hengine ▸ h.within⟩
  obtain ⟨v, hv⟩ := h.settles id
  by_cases hid : (box n).id = id
  · have hpoints : ∀ t ∈ s'.toggles, (box t.box).id = id → Points s'.forwarded forwarded t := by
      rw [ht', hforwarded]
      refine List.forall_mem_cons.mpr ⟨fun _ => ⟨Function.update_self .., trivial⟩,
        fun t ht htid => ?_⟩
      exact hharmless t ht (htid.trans hid.symm)
    refine ⟨forwarded, hpoints, fun key ha => ?_⟩
    rw [hengine, hv.keys key ha]
    refine and_congr_right fun _ => or_congr Iff.rfl ?_
    rw [forwarding_congr (by rw [hselected]) (hdone id _)]
    refine forwarding_turn fun ⟨t, ht, htid, hd⟩ => ?_
    exact points_eq_of_done hd (hv.points t ht htid) (hharmless t ht (htid.trans hid.symm))
  · refine ⟨v, hsame hv ?_⟩
    rw [ht', hforwarded]
    refine List.forall_mem_cons.mpr ⟨fun hc => absurd hc hid, fun t ht htid => ?_⟩
    have hne : t.box ≠ n := by
      rintro rfl
      exact hid htid
    obtain ⟨hf, hstage⟩ := hv.points t ht htid
    exact ⟨(Function.update_of_ne hne ..).trans hf, hstage⟩

/-- What is recorded for one interface leaves the others as they are. -/
theorem mem_recorded_other {selected : Distinct String} {id id' : String} (hne : id' ≠ id)
    (forwarded : Bool) :
    id ∈ (if forwarded then selected.insert id' else selected.remove id').items ↔
      id ∈ selected.items := by
  cases forwarded with
  | true => exact Distinct.mem_insert.trans (or_iff_right fun he => hne he.symm)
  | false => exact Distinct.mem_remove.trans (and_iff_right fun he => hne he.symm)

/-- A task that has gone through the ports, and records what they were turned to. -/
theorem forwarding_recorded {v : Bool} {id : String} {p : PortAndProtocol}
    (hselected : s'.selected = if v then s.selected.insert id else s.selected.remove id)
    (hdone : AnyDone box s id p) : Forwarding box s' v id p ↔ Forwarding box s v id p := by
  unfold Forwarding
  rw [hselected]
  cases v with
  | true => exact iff_of_true (.inl (Distinct.mem_insert.mpr (.inl rfl))) (.inr hdone)
  | false => exact iff_of_false (fun hc => (Distinct.mem_remove.mp hc.1).1 rfl) fun hc => hc.2 hdone

/-- A task that records. -/
theorem Invariant.record (h : Invariant N box s) {pre post : List Toggle} {n : Nat} {enabled : Bool}
    (ht : s.toggles = pre ++ ⟨n, .enumerated enabled⟩ :: post)
    (ht' : s'.toggles = pre ++ post) (hengine : s'.engine = s.engine)
    (hselected : s'.selected
      = if s.forwarded n then s.selected.insert (box n).id else s.selected.remove (box n).id)
    (hforwarded : s'.forwarded = s.forwarded) (hversion : s'.version = s.version) :
    Invariant N box s' := by
  have hsub : ∀ t ∈ s'.toggles, t ∈ s.toggles := by
    rw [ht, ht']
    intro t hmem
    rcases List.mem_append.mp hmem with hmem | hmem
    · exact List.mem_append_left _ hmem
    · exact List.mem_append_right _ (List.mem_cons_of_mem _ hmem)
  refine ⟨hengine ▸ h.configured, hengine ▸ h.nodup, hengine ▸ h.ports,
    fun t hmem => (h.fresh t (hsub t hmem)).congr hversion, fun id => ?_, hengine ▸ h.within⟩
  obtain ⟨v, hv⟩ := h.settles id
  have hpoints : ∀ t ∈ s'.toggles, (box t.box).id = id → Points s'.forwarded v t := by
    rw [hforwarded]
    exact fun t hmem => hv.points t (hsub t hmem)
  refine ⟨v, hv.congr hpoints (by rw [hengine]) (by rw [hengine]) fun p hp => ?_⟩
  by_cases hid : (box n).id = id
  · have hf : s.forwarded n = v := (hv.points _ (mem_replaced ht) hid).1
    rw [hf, hid] at hselected
    exact forwarding_recorded hselected ⟨_, mem_replaced ht, hid, hp⟩
  · refine forwarding_congr ?_ (anyDone_remove ht ht' (by rw [hengine]) hid)
    rw [hselected]
    exact mem_recorded_other hid _

/-! ### A line -/

/-- For the other ports a line that passes a task by changes nothing. -/
theorem done_message_other {t : Toggle} {enabled : Bool} {p q : PortAndProtocol}
    (hnodup : s.engine.ports.Nodup) (hpasses : Passes N box s enabled p t) (hq : q ≠ p) :
    Done (Mark.apply s.engine.ports (portMark enabled p)) q t ↔ Done s.engine.ports q t := by
  obtain ⟨n, stage⟩ := t
  cases stage with
  | begun => exact Iff.rfl
  | iterating addresses target forwards version index =>
    unfold Done
    rw [apply_portMark_eq hpasses.1]
  | enumerated forwards =>
    show q ∈ Mark.apply s.engine.ports (portMark enabled p) ↔ q ∈ s.engine.ports
    rw [mem_apply_portMark hnodup, if_neg hq]

/-- A task that forwards, on an interface that the line does not reach. -/
theorem done_message_on {t : Toggle} {enabled : Bool} {p : PortAndProtocol}
    (hpasses : Passes N box s enabled p t)
    (hpoints : Points s.forwarded true t) (hne : N.addresses (box t.box).id ≠ [])
    (hselected : (box t.box).id ∉ s.selected.items) :
    p ∈ s.engine.ports ∧ Done s.engine.ports p t ↔
      enabled = true ∧ Done (Mark.apply s.engine.ports (portMark enabled p)) p t := by
  obtain ⟨n, stage⟩ := t
  cases stage with
  | begun => exact iff_of_false (fun hc => hc.2) fun hc => hc.2
  | iterating addresses target forwards version index =>
    unfold Done
    rw [apply_portMark_eq hpasses.1, hpasses.1]
  | enumerated forwards =>
    obtain rfl : forwards = true := hpoints.2
    have hiff : enabled = true ↔ p ∈ s.engine.ports :=
      hpasses.resolve_right fun hc => hc.elim hselected hne
    show p ∈ s.engine.ports ∧ p ∈ s.engine.ports ↔
      enabled = true ∧ p ∈ Mark.apply s.engine.ports (portMark enabled p)
    rw [apply_portMark_eq hiff, hiff]

/-- A task that stops forwarding is not behind a port that the line forwards on its interface. -/
theorem not_done_message_off {t : Toggle} {enabled : Bool} {p : PortAndProtocol}
    (hpasses : Passes N box s enabled p t) (hpoints : Points s.forwarded false t)
    (hne : N.addresses (box t.box).id ≠ []) (hselected : (box t.box).id ∈ s.selected.items)
    (henabled : enabled = true) :
    ¬ Done (Mark.apply s.engine.ports (portMark enabled p)) p t := by
  obtain ⟨n, stage⟩ := t
  cases stage with
  | begun => exact fun hc => hc
  | iterating addresses target forwards version index =>
    intro hdone
    unfold Done at hdone
    rw [apply_portMark_eq hpasses.1] at hdone
    exact hne (hpasses.2 hpoints.2 hdone hselected)
  | enumerated forwards =>
    obtain rfl : forwards = false := hpoints.2
    exact fun _ => hne (hpasses henabled hselected)

/-- A line turns a port on for an interface that is selected. -/
theorem forwarding_message_selected {v enabled : Bool} {p : PortAndProtocol} {id : String}
    (hne : N.addresses id ≠ [])
    (hpoints : ∀ t ∈ s.toggles, (box t.box).id = id → Points s.forwarded v t)
    (hpasses : ∀ t ∈ s.toggles, Passes N box s enabled p t)
    (htoggles : s'.toggles = s.toggles) (hselected : s'.selected = s.selected)
    (hports : s'.engine.ports = Mark.apply s.engine.ports (portMark enabled p))
    (hsel : id ∈ s.selected.items) (henabled : enabled = true) : Forwarding box s' v id p := by
  unfold Forwarding
  rw [hselected]
  cases v with
  | true => exact .inl hsel
  | false =>
    refine ⟨hsel, fun ⟨t, ht, hid, hdone⟩ => ?_⟩
    rw [htoggles] at ht
    rw [hports] at hdone
    exact not_done_message_off (hpasses t ht) (hpoints t ht hid) (hid.symm ▸ hne) (hid.symm ▸ hsel)
      henabled hdone

/-- For an interface that is not selected, what is forwarded is behind a task. -/
theorem forwarding_message_unselected {v enabled : Bool} {p : PortAndProtocol} {id : String}
    (hne : N.addresses id ≠ [])
    (hpoints : ∀ t ∈ s.toggles, (box t.box).id = id → Points s.forwarded v t)
    (hpasses : ∀ t ∈ s.toggles, Passes N box s enabled p t)
    (htoggles : s'.toggles = s.toggles) (hselected : s'.selected = s.selected)
    (hports : s'.engine.ports = Mark.apply s.engine.ports (portMark enabled p))
    (hsel : id ∉ s.selected.items) :
    (p ∈ s.engine.ports ∧ Forwarding box s v id p) ↔ enabled = true ∧ Forwarding box s' v id p := by
  unfold Forwarding
  rw [hselected]
  cases v with
  | false => exact iff_of_false (fun hc => hsel hc.2.1) fun hc => hsel hc.2.1
  | true =>
    have hon : ∀ t ∈ s.toggles, (box t.box).id = id →
      (p ∈ s.engine.ports ∧ Done s.engine.ports p t ↔
        enabled = true ∧ Done s'.engine.ports p t) := by
      intro t ht hid
      rw [hports]
      exact done_message_on (hpasses t ht) (hpoints t ht hid) (hid.symm ▸ hne) (hid.symm ▸ hsel)
    constructor
    · intro ⟨hp, hor⟩
      obtain ⟨t, ht, hid, hdone⟩ := hor.resolve_left hsel
      obtain ⟨henabled, hdone'⟩ := (hon t ht hid).mp ⟨hp, hdone⟩
      exact ⟨henabled, .inr ⟨t, htoggles.symm ▸ ht, hid, hdone'⟩⟩
    · intro ⟨henabled, hor⟩
      obtain ⟨t, ht, hid, hdone⟩ := hor.resolve_left hsel
      rw [htoggles] at ht
      obtain ⟨hp, hdone'⟩ := (hon t ht hid).mpr ⟨henabled, hdone⟩
      exact ⟨hp, .inr ⟨t, ht, hid, hdone'⟩⟩

/-- What the port of a line comes to on one interface. -/
theorem message_settles {v enabled : Bool} {p : PortAndProtocol} {id : String} {items items' : Prop}
    (hnodup : s.engine.ports.Nodup) (hne : N.addresses id ≠ [])
    (hpoints : ∀ t ∈ s.toggles, (box t.box).id = id → Points s.forwarded v t)
    (hpasses : ∀ t ∈ s.toggles, Passes N box s enabled p t)
    (htoggles : s'.toggles = s.toggles) (hselected : s'.selected = s.selected)
    (hports : s'.engine.ports = Mark.apply s.engine.ports (portMark enabled p))
    (hitems : items ↔ p ∈ s.engine.ports ∧ (UdpLoopback N id p ∨ Forwarding box s v id p))
    (hin : UdpLoopback N id p ∨ id ∈ s.selected.items → (items' ↔ enabled = true))
    (hout : ¬ (UdpLoopback N id p ∨ id ∈ s.selected.items) → (items' ↔ items)) :
    items' ↔ p ∈ s'.engine.ports ∧ (UdpLoopback N id p ∨ Forwarding box s' v id p) := by
  have hport : p ∈ s'.engine.ports ↔ enabled = true := by
    rw [hports, mem_apply_portMark hnodup, if_pos rfl]
  rw [hport]
  by_cases hreached : UdpLoopback N id p ∨ id ∈ s.selected.items
  · rw [hin hreached, iff_self_and]
    intro henabled
    exact hreached.imp_right fun hsel =>
      forwarding_message_selected hne hpoints hpasses htoggles hselected hports hsel henabled
  · obtain ⟨hudp, hsel⟩ := not_or.mp hreached
    rw [hout hreached, hitems, or_iff_right hudp, or_iff_right hudp]
    exact forwarding_message_unselected hne hpoints hpasses htoggles hselected hports hsel

/-- A line about another port leaves things as they are. -/
theorem message_settles_other {v enabled : Bool} {p q : PortAndProtocol} {id : String}
    (hnodup : s.engine.ports.Nodup) (hpasses : ∀ t ∈ s.toggles, Passes N box s enabled p t)
    (htoggles : s'.toggles = s.toggles) (hselected : s'.selected = s.selected)
    (hports : s'.engine.ports = Mark.apply s.engine.ports (portMark enabled p)) (hq : q ≠ p) :
    (q ∈ s'.engine.ports ∧ (UdpLoopback N id q ∨ Forwarding box s' v id q)) ↔
      q ∈ s.engine.ports ∧ (UdpLoopback N id q ∨ Forwarding box s v id q) := by
  rw [hports, mem_apply_portMark hnodup, if_neg hq]
  refine and_congr_right fun _ => or_congr Iff.rfl (forwarding_congr (by rw [hselected]) ?_)
  unfold AnyDone
  rw [htoggles, hports]
  refine exists_congr fun t => and_congr_right fun ht => and_congr_right fun _ => ?_
  exact done_message_other hnodup (hpasses t ht) hq

theorem message_run {W : World} (hW : Serves W) (cfg : Settings) {line : String} {enabled : Bool}
    {p : PortAndProtocol} (hline : heard line = some (enabled, p)) (hs : s.engine.Configured) :
    (s.message (W.on N) cfg line).engine.ports = Mark.apply s.engine.ports (portMark enabled p) ∧
      (s.message (W.on N) cfg line).engine.Configured ∧
      ∀ key, key ∈ (s.message (W.on N) cfg line).engine.portForwarders.items ↔
        if key.portAndProto = p ∧
            ∃ id ∈ Table.reached N s.selected.items p, key.address ∈ N.addresses id then
          enabled = true ∧ key.port ≤ 65535
        else key ∈ s.engine.portForwarders.items :=
  forwardPort_keys hW N (s.settings cfg) hline hs

/-- Each address belongs to one interface. -/
theorem reached_iff (hN : Apart N) {id address : String} (ha : address ∈ N.addresses id)
    (selected : List String) (p : PortAndProtocol) :
    (∃ id ∈ Table.reached N selected p, address ∈ N.addresses id) ↔
      UdpLoopback N id p ∨ id ∈ selected := by
  rw [← mem_reached_iff (Network.listed_of_mem ha) p]
  constructor
  · intro ⟨id', hid', ha'⟩
    obtain rfl := hN.addresses ha ha'
    exact hid'
  · intro hid
    exact ⟨id, hid, ha⟩

theorem Settles.message (hN : Apart N) {v enabled : Bool} {p : PortAndProtocol} {id : String}
    (h : Settles N box s v id) (hnodup : s.engine.ports.Nodup)
    (hpasses : ∀ t ∈ s.toggles, Passes N box s enabled p t)
    (htoggles : s'.toggles = s.toggles) (hselected : s'.selected = s.selected)
    (hforwarded : s'.forwarded = s.forwarded) (hsmall : enabled = true → p.port ≤ 65535)
    (hports : s'.engine.ports = Mark.apply s.engine.ports (portMark enabled p))
    (hkeys : ∀ key, key ∈ s'.engine.portForwarders.items ↔
      if key.portAndProto = p ∧
          ∃ id ∈ Table.reached N s.selected.items p, key.address ∈ N.addresses id then
        enabled = true ∧ key.port ≤ 65535
      else key ∈ s.engine.portForwarders.items) :
    Settles N box s' v id where
  points := by
    rw [htoggles, hforwarded]
    exact h.points
  keys := by
    intro key ha
    have hcase := hkeys key
    have hreached := reached_iff hN ha s.selected.items p
    by_cases hq : key.portAndProto = p
    · rw [hq]
      refine message_settles hnodup (List.ne_nil_of_mem ha) h.points hpasses htoggles
        hselected hports (hq ▸ h.keys key ha) (fun hor => ?_) fun hor => ?_
      · rw [if_pos ⟨hq, hreached.mpr hor⟩] at hcase
        refine hcase.trans (and_iff_left_of_imp fun he => ?_)
        have hp := hsmall he
        rw [← hq] at hp
        exact hp
      · rw [if_neg fun hc => hor (hreached.mp hc.2)] at hcase
        exact hcase
    · rw [if_neg fun hc => hq hc.1] at hcase
      rw [hcase, h.keys key ha, message_settles_other hnodup hpasses htoggles hselected hports hq]

/-- A line that passes an enumerator by does not change its list. -/
theorem Fresh.message {t : Toggle} {enabled : Bool} {p : PortAndProtocol} (h : Fresh N box s t)
    (hpasses : Passes N box s enabled p t)
    (hversion : Mark.apply s.engine.ports (portMark enabled p) = s.engine.ports →
      s'.version = s.version) :
    Fresh N box s' t := by
  obtain ⟨hmem, hloopback, hstage⟩ := h
  refine ⟨hmem, hloopback, ?_⟩
  unfold Passes at hpasses
  split <;> rename_i hst
  · rw [hst] at hstage hpasses
    rw [hversion (apply_portMark_eq hpasses.1)]
    exact hstage
  · trivial
  · trivial

/-- A line that passes every task by. -/
theorem Invariant.message {W : World} (hW : Serves W) (hN : Apart N) (cfg : Settings)
    {line : String} (h : Invariant N box s) (hstarts : Event.Starts (.message line))
    (hharmless : Event.Harmless N box s (.message line)) :
    Invariant N box (s.message (W.on N) cfg line) := by
  rcases hline : heard line with _ | ⟨enabled, p⟩
  · have hsame : s.message (W.on N) cfg line = s := by
      unfold Desktop.message
      rw [forwardPort_unheard hline, if_pos rfl]
    rw [hsame]
    exact h
  · obtain ⟨hports, hconfigured, hkeys⟩ := message_run (N := N) hW cfg hline h.configured
    have hpasses := hharmless enabled p hline
    have hsmall : enabled = true → p.port ≤ 65535 := fun he => hstarts p (he ▸ hline)
    have hversion : Mark.apply s.engine.ports (portMark enabled p) = s.engine.ports →
        (s.message (W.on N) cfg line).version = s.version := fun he => if_pos (hports.trans he)
    refine ⟨hconfigured, hports ▸ Mark.nodup_apply h.nodup _, fun q hq => ?_,
      fun t ht => (h.fresh t ht).message (hpasses t ht) hversion, fun id => ?_, fun key hkey => ?_⟩
    · rw [hports, mem_apply_portMark h.nodup] at hq
      split at hq <;> rename_i he
      · rw [he]
        exact hsmall hq
      · exact h.ports q hq
    · obtain ⟨v, hv⟩ := h.settles id
      exact ⟨v, hv.message hN h.nodup hpasses rfl rfl rfl hsmall hports hkeys⟩
    · rw [hkeys key] at hkey
      split at hkey <;> rename_i hcase
      · obtain ⟨-, id, -, ha⟩ := hcase
        exact ⟨id, ha⟩
      · exact h.within key hkey

/-! ## Runs -/

/-- A step that does no harm keeps the invariant, and no enumerator throws. -/
theorem Invariant.step {W : World} (hW : Serves W) (hN : Apart N) {cfg : Settings} {e : Event}
    (h : Invariant N box s) (hstarts : e.Starts) (hharmless : e.Harmless N box s)
    (hstep : Step W N cfg box s e s') : Invariant N box s' ∧ ∀ n, e ≠ .abort n := by
  cases hstep with
  | message line => exact ⟨h.message hW hN cfg hstarts hharmless, fun n hc => nomatch hc⟩
  | click forwarded hmem hloopback =>
    exact ⟨h.click hmem hloopback hharmless rfl rfl rfl rfl rfl, fun n hc => nomatch hc⟩
  | @start pre post n addresses target engine ht hrun =>
    obtain ⟨target', requests, hrun'⟩ := beginForwarding_run hW N (box n) h.configured
    obtain ⟨hbegun, rfl⟩ := Prod.ext_iff.mp (hrun.symm.trans hrun')
    obtain ⟨rfl, -⟩ := Prod.mk.inj (Except.ok.inj hbegun)
    refine ⟨h.replace ht rfl rfl rfl rfl rfl rfl rfl rfl ?_ ?_ ?_, fun n hc => nomatch hc⟩
    · exact fun ⟨hmem, hloopback, _⟩ => ⟨hmem, hloopback, rfl, rfl⟩
    · exact fun v hv => ⟨hv.1, hv.1⟩
    · exact fun p _ => iff_of_false List.not_mem_nil fun hc => hc
  | @startFails pre post n e engine ht hrun =>
    obtain ⟨target', requests, hrun'⟩ := beginForwarding_run hW N (box n) h.configured
    exact nomatch (Prod.ext_iff.mp (hrun.symm.trans hrun')).1
  | next ht hp => exact ⟨h.next hW hN ht hp rfl rfl rfl rfl rfl, fun n hc => nomatch hc⟩
  | ends ht hp =>
    refine ⟨h.replace ht rfl rfl rfl rfl rfl rfl rfl rfl ?_ ?_ ?_, fun n hc => nomatch hc⟩
    · exact fun ⟨hmem, hloopback, _⟩ => ⟨hmem, hloopback, trivial⟩
    · exact fun v hv => hv
    · intro p hin
      refine iff_of_true hin ?_
      show p ∈ s.engine.ports.take _
      rw [List.take_of_length_le (List.getElem?_eq_none_iff.mp hp)]
      exact hin
  | changed ht hversion =>
    obtain ⟨-, -, -, hsame⟩ := h.fresh _ (mem_replaced ht)
    exact absurd hsame hversion
  | record ht => exact ⟨h.record ht rfl rfl rfl rfl rfl, fun n hc => nomatch hc⟩

/-- **Where no line and no click does harm, no port is missed and no task ends early.** -/
theorem no_port_is_missed (W : World) (N : Network) (cfg : Settings) (box : Nat → NetworkInterface)
    (s t : Desktop) (events : List Event) (hW : Serves W) (hN : Apart N) (hs : Idle N s)
    (h : Reaches W N cfg box (fun s e => e.Starts ∧ e.Harmless N box s) s events t) :
    (t.toggles = [] → Exact N t) ∧ ∀ n, Event.abort n ∉ events := by
  have hrun : Invariant N box t ∧ ∀ n, Event.abort n ∉ events := by
    induction h with
    | refl => exact ⟨hs.invariant hN, fun n => List.not_mem_nil⟩
    | step _ hP hstep ih =>
      obtain ⟨hinv, hnot⟩ := ih
      obtain ⟨hinv', hne⟩ := hinv.step hW hN hP.1 hP.2 hstep
      refine ⟨hinv', fun n hmem => ?_⟩
      rcases List.mem_cons.mp hmem with he | hmem
      · exact hne n he.symm
      · exact hnot n hmem
  exact ⟨hrun.1.exact, hrun.2⟩

end Invariant

/-! ## A port that is missed -/

/-- One interface, with one address. -/
def oneInterface : Network where
  interfaces := [⟨"eth0", false⟩]
  unicast := fun id => if id = "eth0" then [⟨"192.168.1.10", true⟩] else []
  listed := by
    intro id h
    split at h <;> rename_i he
    · exact ⟨⟨"eth0", false⟩, List.mem_cons_self, he.symm⟩
    · exact absurd rfl h

theorem addresses_oneInterface {id a : String} :
    a ∈ oneInterface.addresses id ↔ id = "eth0" ∧ a = "192.168.1.10" := by
  by_cases h : id = "eth0" <;> simp [Network.addresses, oneInterface, h]

theorem apart_oneInterface : Apart oneInterface where
  ids := by decide
  addresses := fun h h' => (addresses_oneInterface.mp h).1.trans
    (addresses_oneInterface.mp h').1.symm

/-- The interface is not selected, and nothing is forwarded. -/
def quietDesktop : Desktop where
  engine := { EngineState.init with runningState := .running, dnsConfigurator := some false }
  version := 0
  selected := .empty
  forwarded := fun _ => false
  toggles := []

theorem idle_quietDesktop : Idle oneInterface quietDesktop where
  configured := fun h => nomatch h
  nodup := List.nodup_nil
  ports := fun _ h => nomatch h
  toggles := rfl
  exact := fun _ => iff_of_false List.not_mem_nil fun h => nomatch h.1

end Desktop

/-- What the engine hears of a message of a proxy. -/
theorem heard_line {m : PortMessage} (h : m.args.Recognised) (hip : m.args.hostIp = "0.0.0.0") :
    heard m.line = some (m.enabled, m.args.portAndProto) := by
  unfold heard
  rw [m.skipTwo_line]
  dsimp only
  rw [parsePortForwardCmdLine_cmd h, m.enabled_line, ProxyArgs.hostAddress, if_pos hip]
  rfl

namespace Desktop

/-- Every check box is for `eth0`. -/
abbrev boxes : Nat → NetworkInterface := fun _ => ⟨"eth0", false⟩

abbrev openWebServer : String := (⟨true, webServer⟩ : PortMessage).line

theorem heard_openWebServer : heard openWebServer = some (true, ⟨8080, "tcp"⟩) :=
  heard_line recognised_webServer rfl

theorem starts_openWebServer : Event.Starts (.message openWebServer) := by
  intro p hp
  obtain ⟨-, rfl⟩ := Prod.mk.inj (Option.some.inj (heard_openWebServer.symm.trans hp))
  decide

/-- A desktop with one task of the first check box. -/
def withTask (s : Desktop) (stage : Stage) : Desktop :=
  { s with forwarded := Function.update s.forwarded 0 true, toggles := [⟨0, stage⟩] }

section Example

variable {P : Desktop → Event → Prop}

/-- The interface is selected while no port is open: its task comes as far as the end of the
`foreach`. -/
theorem reaches_enumerated (hclick : P quietDesktop (.click 0 true))
    (hadvance : ∀ s n, P s (.advance n)) :
    ∃ requests, Reaches calm oneInterface noDistributions boxes P quietDesktop
      [.advance 0, .advance 0, .click 0 true] { withTask quietDesktop (.enumerated true) with
        engine := { quietDesktop.engine with requests := requests } } := by
  have hclicked : Reaches calm oneInterface noDistributions boxes P quietDesktop [.click 0 true]
      (withTask quietDesktop .begun) := .step .refl hclick (.click true List.mem_cons_self rfl)
  obtain ⟨target, requests, hrun⟩ := beginForwarding_run serves_calm oneInterface (boxes 0)
    (s := quietDesktop.engine) fun h => nomatch h
  refine ⟨requests, .step (.step hclicked (hadvance _ _) (.start (show _ = [] ++ _ from rfl) hrun))
    (hadvance _ _) ?_⟩
  exact .ends (show _ = [] ++ _ from rfl) rfl

/-- And as far as the record. -/
theorem reaches_selected (hclick : P quietDesktop (.click 0 true))
    (hadvance : ∀ s n, P s (.advance n)) :
    ∃ requests, Reaches calm oneInterface noDistributions boxes P quietDesktop
      [.advance 0, .advance 0, .advance 0, .click 0 true]
      { quietDesktop with
        engine := { quietDesktop.engine with requests := requests }
        selected := quietDesktop.selected.insert "eth0"
        forwarded := Function.update quietDesktop.forwarded 0 true } := by
  obtain ⟨requests, h⟩ := reaches_enumerated hclick hadvance
  exact ⟨requests, .step h (hadvance _ _) (.record (show _ = [] ++ _ from rfl))⟩

end Example

/-- A port that is opened while the interface is selected is forwarded on it. -/
theorem no_port_is_missed_selected : ∃ t : Desktop, t.toggles = [] ∧
    t.engine.ports = [⟨8080, "tcp"⟩] ∧ t.selected.items = ["eth0"] ∧ Exact oneInterface t := by
  obtain ⟨requests, h⟩ := reaches_selected
    (P := fun s e => e.Starts ∧ e.Harmless oneInterface boxes s)
    ⟨trivial, fun _ ht => nomatch ht⟩ fun _ _ => ⟨trivial, trivial⟩
  have hrun := Reaches.step h ⟨starts_openWebServer, fun _ _ _ _ ht => nomatch ht⟩
    (.message openWebServer)
  obtain ⟨hports, -, -⟩ := message_run (N := oneInterface) serves_calm noDistributions
    heard_openWebServer (s := { quietDesktop with
      engine := { quietDesktop.engine with requests := requests }
      selected := quietDesktop.selected.insert "eth0"
      forwarded := Function.update quietDesktop.forwarded 0 true }) fun h => nomatch h
  exact ⟨_, rfl, hports, rfl, (no_port_is_missed calm oneInterface noDistributions boxes
    quietDesktop _ _ serves_calm apart_oneInterface idle_quietDesktop hrun).1 rfl⟩

/-- A port that is opened between the `foreach` and the record is forwarded by neither. -/
theorem port_is_missed :
    ¬ ∀ (W : World) (N : Network) (cfg : Settings) (box : Nat → NetworkInterface) (s t : Desktop)
      (events : List Event), Serves W → Apart N → Idle N s →
      Reaches W N cfg box (fun _ e => e.Starts) s events t →
      (t.toggles = [] → Exact N t) ∧ ∀ n, Event.abort n ∉ events := by
  intro hall
  obtain ⟨requests, h⟩ := reaches_enumerated (P := fun _ e => e.Starts) trivial fun _ _ => trivial
  have hmessage := Reaches.step h starts_openWebServer (.message openWebServer)
  have hrun := Reaches.step hmessage (e := .advance 0) trivial (.record (show _ = [] ++ _ from rfl))
  obtain ⟨hports, -, hkeys⟩ := message_run (N := oneInterface) serves_calm noDistributions
    heard_openWebServer (s := { withTask quietDesktop (.enumerated true) with
      engine := { quietDesktop.engine with requests := requests } }) fun h => nomatch h
  have hexact := (hall _ _ _ _ _ _ _ serves_calm apart_oneInterface idle_quietDesktop hrun).1 rfl
  have hkey := (hexact ⟨"192.168.1.10", 8080, "tcp"⟩).mpr ⟨?_, "eth0", ?_, ?_⟩
  · have hmissed := (hkeys ⟨"192.168.1.10", 8080, "tcp"⟩).mp hkey
    rw [if_neg fun hc => ?_] at hmissed
    · exact nomatch hmissed
    · obtain ⟨-, id, hid, -⟩ := hc
      exact nomatch hid
  · exact hports.symm ▸ List.mem_cons_self
  · exact List.mem_cons_self
  · exact addresses_oneInterface.mpr ⟨rfl, rfl⟩

end Desktop

end ContainerDesktop.Services
