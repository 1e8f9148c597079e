import ContainerDesktop.Services.Sessions

/-!
# The `docker-proxy` shim and the engine

A shim sends its arguments with an `O`, starts `docker-proxy-org` and waits for
it.  A `SIGINT` makes it send the arguments with a `C` and end the process; if the
process ends by itself, the shim ends with it and sends nothing.  The engine takes
the messages in the order in which they were sent.

Sending a message and what the shim does with it, starting the process or ending
it, are one step.  Any number of shims run, and their steps and those of the engine
come in any order; two shims that run have different addresses, ports or protocols.
-/

namespace ContainerDesktop.Services

/-! ## Shims -/

/-- What no two running shims have in common. -/
def ProxyArgs.key (a : ProxyArgs) : String × Nat × String := (a.hostIp, a.hostPort, a.proto)

/-- The arguments of the shims whose `docker-proxy-org` is running. -/
structure Shims where
  items : List ProxyArgs
  distinct : (items.map (·.key)).Nodup

namespace Shims

def none : Shims := ⟨[], List.nodup_nil⟩

def start (shims : Shims) (a : ProxyArgs) (h : a.key ∉ shims.items.map (·.key)) : Shims :=
  ⟨a :: shims.items, List.nodup_cons.mpr ⟨h, shims.distinct⟩⟩

def remove (shims : Shims) (a : ProxyArgs) : Shims :=
  ⟨shims.items.erase a, shims.distinct.sublist (List.erase_sublist.map _)⟩

/-- A port published on all addresses of IPv4. -/
def Publishes (shims : Shims) (portAndProto : PortAndProtocol) : Prop :=
  ∃ a ∈ shims.items, a.hostIp = "0.0.0.0" ∧ a.portAndProto = portAndProto

theorem mem_remove {shims : Shims} {a b : ProxyArgs} :
    b ∈ (shims.remove a).items ↔ b ≠ a ∧ b ∈ shims.items :=
  (List.Nodup.of_map _ shims.distinct).mem_erase_iff

theorem eq_of_key {shims : Shims} {a b : ProxyArgs} (ha : a ∈ shims.items) (hb : b ∈ shims.items)
    (h : a.key = b.key) : a = b :=
  List.inj_on_of_nodup_map shims.distinct ha hb h

theorem publishes_start {shims : Shims} {a : ProxyArgs} {h : a.key ∉ shims.items.map (·.key)}
    {portAndProto : PortAndProtocol} :
    (shims.start a h).Publishes portAndProto ↔
      a.hostIp = "0.0.0.0" ∧ portAndProto = a.portAndProto ∨ shims.Publishes portAndProto := by
  rw [Publishes, start, List.exists_mem_cons_iff]
  exact or_congr_left (and_congr_right fun _ => eq_comm)

theorem publishes_remove {shims : Shims} {a : ProxyArgs} (ha : a ∈ shims.items)
    {portAndProto : PortAndProtocol} :
    (shims.remove a).Publishes portAndProto ↔
      (a.hostIp = "0.0.0.0" → portAndProto ≠ a.portAndProto) ∧ shims.Publishes portAndProto := by
  refine ⟨fun ⟨b, hb, hip, hport⟩ => ?_, fun ⟨hne, b, hb, hip, hport⟩ => ?_⟩
  · obtain ⟨hne, hb⟩ := mem_remove.mp hb
    refine ⟨fun haip he => hne (eq_of_key hb ha ?_), b, hb, hip, hport⟩
    injection hport.trans he with hp hproto
    rw [ProxyArgs.key, ProxyArgs.key, hip, haip, hp, hproto]
  · refine ⟨b, mem_remove.mpr ⟨?_, hb⟩, hip, hport⟩
    rintro rfl
    exact hne hip hport.symm

end Shims

/-! ## Runs -/

/-- The shims, the messages on their way with the first one sent in front, and the engine. -/
structure System where
  shims : Shims
  channel : List PortMessage
  engine : EngineState

/-- No shim has been started yet. -/
def System.init (engine : EngineState) : System := ⟨.none, [], engine⟩

inductive Event where
  | start (a : ProxyArgs)
  | sigint (a : ProxyArgs)
  | exit (a : ProxyArgs)
  | receive (cfg : Settings)

inductive Step (W : World) (s : System) : Event → System → Prop
  | start {a : ProxyArgs} (h : a.key ∉ s.shims.items.map (·.key)) :
    Step W s (.start a) { s with shims := s.shims.start a h, channel := s.channel ++ [⟨true, a⟩] }
  | sigint {a : ProxyArgs} (h : a ∈ s.shims.items) :
    Step W s (.sigint a) { s with shims := s.shims.remove a, channel := s.channel ++ [⟨false, a⟩] }
  | exit {a : ProxyArgs} (h : a ∈ s.shims.items) :
    Step W s (.exit a) { s with shims := s.shims.remove a }
  | receive {cfg : Settings} {m : PortMessage} {rest : List PortMessage}
    (h : s.channel = m :: rest) : Step W s (.receive cfg)
      { s with channel := rest, engine := (forwardPort W cfg m.line s.engine).2 }

/-- The events of a run, the last one first. -/
inductive Reaches (W : World) (s : System) : List Event → System → Prop
  | refl : Reaches W s [] s
  | step {events : List Event} {e : Event} {t u : System} (h : Reaches W s events t)
    (hstep : Step W t e u) : Reaches W s (e :: events) u

/-- **A proxy for TCP or UDP on `0.0.0.0` or on an address that begins with `::`, and on `0.0.0.0`
it only ends when it is told to.** -/
def Event.Regular : Event → Prop
  | .start a => a.Recognised
  | .exit a => a.hostIp ≠ "0.0.0.0"
  | .sigint _ | .receive _ => True

/-! ## The list of ports -/

/-- What the messages on their way will do to the list. -/
def marks (channel : List PortMessage) : List (Mark PortAndProtocol) :=
  (channel.filter (·.args.hostIp = "0.0.0.0")).map (·.mark)

theorem foldl_marks_append (channel : List PortMessage) (m : PortMessage)
    (ports : List PortAndProtocol) : (marks (channel ++ [m])).foldl Mark.apply ports =
      if m.args.hostIp = "0.0.0.0" then Mark.apply ((marks channel).foldl Mark.apply ports) m.mark
      else (marks channel).foldl Mark.apply ports := by
  rw [marks, List.filter_append, List.map_append, List.foldl_append]
  by_cases hip : m.args.hostIp = "0.0.0.0"
  · rw [if_pos hip, List.filter_cons_of_pos (by simpa using hip)]
    rfl
  · rw [if_neg hip, List.filter_cons_of_neg (by simpa using hip)]
    rfl

theorem foldl_marks_cons (m : PortMessage) (channel : List PortMessage)
    (ports : List PortAndProtocol) : (marks (m :: channel)).foldl Mark.apply ports =
      (marks channel).foldl Mark.apply
        (if m.args.hostIp = "0.0.0.0" then Mark.apply ports m.mark else ports) := by
  by_cases hip : m.args.hostIp = "0.0.0.0"
  · rw [if_pos hip, marks, List.filter_cons_of_pos (by simpa using hip)]
    rfl
  · rw [if_neg hip, marks, List.filter_cons_of_neg (by simpa using hip)]
    rfl

/-- When the messages on their way have been taken, the list holds what is published. -/
structure InStep (s : System) : Prop where
  nodup : s.engine.ports.Nodup
  shims : ∀ a ∈ s.shims.items, a.Recognised
  channel : ∀ m ∈ s.channel, m.args.Recognised
  ports : ∀ portAndProto, portAndProto ∈ (marks s.channel).foldl Mark.apply s.engine.ports ↔
    s.shims.Publishes portAndProto

theorem inStep_init {engine : EngineState} (h : engine.ports = []) : InStep (.init engine) where
  nodup := h ▸ List.nodup_nil
  shims _ ha := absurd ha List.not_mem_nil
  channel _ hm := absurd hm List.not_mem_nil
  ports portAndProto := by
    refine iff_of_false (fun hmem => ?_) fun ⟨a, ha, _⟩ => absurd ha List.not_mem_nil
    have hnil : portAndProto ∈ engine.ports := hmem
    rw [h] at hnil
    exact absurd hnil List.not_mem_nil

section Step

variable {W : World} {s t : System}

theorem inStep_start {a : ProxyArgs} {h : a.key ∉ s.shims.items.map (·.key)} (hs : InStep s)
    (ha : a.Recognised) :
    InStep { s with shims := s.shims.start a h, channel := s.channel ++ [⟨true, a⟩] } where
  nodup := hs.nodup
  shims := List.forall_mem_cons.mpr ⟨ha, hs.shims⟩
  channel := List.forall_mem_append.mpr ⟨hs.channel, List.forall_mem_singleton.mpr ha⟩
  ports portAndProto := by
    rw [foldl_marks_append, Shims.publishes_start, ← hs.ports portAndProto]
    by_cases hip : a.hostIp = "0.0.0.0"
    · rw [if_pos hip, and_iff_right hip]
      exact Mark.mem_apply_opens
    · rw [if_neg hip]
      exact ⟨.inr, fun h => h.elim (fun h => absurd h.1 hip) id⟩

theorem inStep_sigint {a : ProxyArgs} (hs : InStep s) (ha : a ∈ s.shims.items) :
    InStep { s with shims := s.shims.remove a, channel := s.channel ++ [⟨false, a⟩] } where
  nodup := hs.nodup
  shims b hb := hs.shims b (Shims.mem_remove.mp hb).2
  channel := List.forall_mem_append.mpr ⟨hs.channel, List.forall_mem_singleton.mpr (hs.shims a ha)⟩
  ports portAndProto := by
    rw [foldl_marks_append, Shims.publishes_remove ha, ← hs.ports portAndProto]
    by_cases hip : a.hostIp = "0.0.0.0"
    · rw [if_pos hip, forall_prop_of_true hip]
      exact Mark.mem_apply_closes (Mark.nodup_foldl hs.nodup)
    · rw [if_neg hip]
      exact ⟨fun h => ⟨fun hip' => absurd hip' hip, h⟩, fun h => h.2⟩

/-- A process that ends by itself was not on the list, being on another address. -/
theorem inStep_exit {a : ProxyArgs} (hs : InStep s) (ha : a ∈ s.shims.items)
    (hip : a.hostIp ≠ "0.0.0.0") : InStep { s with shims := s.shims.remove a } where
  nodup := hs.nodup
  shims b hb := hs.shims b (Shims.mem_remove.mp hb).2
  channel := hs.channel
  ports portAndProto := by
    rw [Shims.publishes_remove ha, ← hs.ports portAndProto]
    exact ⟨fun h => ⟨fun hip' => absurd hip' hip, h⟩, fun h => h.2⟩

theorem inStep_receive {cfg : Settings} {m : PortMessage} {rest : List PortMessage} (hs : InStep s)
    (h : s.channel = m :: rest) :
    InStep { s with channel := rest, engine := (forwardPort W cfg m.line s.engine).2 } := by
  have hm : m.args.Recognised := hs.channel m (h ▸ List.mem_cons_self)
  have hports : (forwardPort W cfg m.line s.engine).2.ports = _ := (forwardPort_line hm s.engine).2
  refine ⟨?_, hs.shims, fun m' hm' => hs.channel m' (h ▸ List.mem_cons_of_mem m hm'),
    fun portAndProto => ?_⟩
  · rw [hports]
    split
    · exact Mark.nodup_apply hs.nodup m.mark
    · exact hs.nodup
  · rw [hports, ← foldl_marks_cons, ← h]
    exact hs.ports portAndProto

theorem inStep_step {e : Event} (hs : InStep s) (h : Step W s e t) (he : e.Regular) : InStep t := by
  cases h with
  | start _ => exact inStep_start hs he
  | sigint ha => exact inStep_sigint hs ha
  | exit ha => exact inStep_exit hs ha he
  | receive hchannel => exact inStep_receive hs hchannel

theorem inStep_reaches {events : List Event} (hs : InStep s) (h : Reaches W s events t)
    (he : ∀ e ∈ events, e.Regular) : InStep t := by
  induction h with
  | refl => exact hs
  | step _ hstep ih =>
    obtain ⟨hlast, hbefore⟩ := List.forall_mem_cons.mp he
    exact inStep_step (ih hbefore) hstep hlast

/-- **Once all messages have been taken, the list of ports is what the running proxies publish on
`0.0.0.0`, in every run of regular steps.** -/
theorem ports_published {engine : EngineState} {events : List Event}
    (hengine : engine.ports = []) (h : Reaches W (.init engine) events t)
    (hregular : ∀ e ∈ events, e.Regular) (htaken : t.channel = []) :
    ∀ portAndProto, portAndProto ∈ t.engine.ports ↔ t.shims.Publishes portAndProto := by
  intro portAndProto
  have hports := (inStep_reaches (inStep_init hengine) h hregular).ports portAndProto
  rw [htaken] at hports
  exact hports

end Step

/-! ### A web server -/

/-- The system after one proxy was started and its message taken. -/
def proxied (W : World) (cfg : Settings) (engine : EngineState) (a : ProxyArgs) : System where
  shims := ⟨[a], List.nodup_singleton _⟩
  channel := []
  engine := (forwardPort W cfg (PortMessage.line ⟨true, a⟩) engine).2

theorem reaches_proxied (W : World) (cfg : Settings) (engine : EngineState) (a : ProxyArgs) :
    Reaches W (.init engine) [.receive cfg, .start a] (proxied W cfg engine a) :=
  .step (.step .refl (.start List.not_mem_nil)) (.receive rfl)

def serving : System := proxied calm noDistributions (after calm [startCalmly]) webServer

theorem ports_started : (after calm [startCalmly]).ports = [] :=
  perform_ports (show startCalmly.Starts from trivial) .init

theorem ports_serving : webServer.portAndProto ∈ serving.engine.ports ↔
    serving.shims.Publishes webServer.portAndProto := by
  refine ports_published ports_started (reaches_proxied _ _ _ _) ?_ rfl webServer.portAndProto
  exact List.forall_mem_cons.mpr ⟨trivial, List.forall_mem_singleton.mpr recognised_webServer⟩

/-- The web server ends by itself, and its port stays on the list. -/
theorem exit_leaves_port :
    ∃ t, Reaches calm (.init (after calm [startCalmly]))
        [.exit webServer, .receive noDistributions, .start webServer] t ∧
      t.channel = [] ∧ webServer.portAndProto ∈ t.engine.ports ∧
      ¬ t.shims.Publishes webServer.portAndProto := by
  refine ⟨_, .step (reaches_proxied _ _ _ _) (.exit List.mem_cons_self), rfl, ?_, ?_⟩
  · have hports : serving.engine.ports
        = Mark.apply (after calm [startCalmly]).ports (.opens webServer.portAndProto) :=
      (forwardPort_line recognised_webServer _).2.trans (if_pos rfl)
    show webServer.portAndProto ∈ serving.engine.ports
    rw [hports, Mark.mem_apply_opens]
    exact .inl rfl
  · rintro ⟨a, ha, -⟩
    obtain ⟨hne, hmem⟩ := Shims.mem_remove.mp ha
    exact hne (List.mem_singleton.mp hmem)

end ContainerDesktop.Services
