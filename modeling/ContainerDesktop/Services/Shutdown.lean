import ContainerDesktop.Services.Engine

/-!
# What is left running after `Stop`

`Stop` is a sequence of steps, and its `finally` only sets the running state.  A
step that throws ends the sequence, so what comes after it is not done although
the engine reads as stopped.  Within the port forwarders it is the same: the
exception of one is swallowed, and the ones after it are not told to stop.

`carriedOut_iff` says for every state, every selection of distributions and every
pattern of failures whether all was done.  Each step is described by the requests
it can make (`Within`) and by when it ends normally; a step leaves the replies to
the requests of the later ones as they were, so the conditions can all be read in
the state that `Stop` starts from.
-/

namespace ContainerDesktop.Services

open Eff (Ends Moves)

/-! ## Requests of a step -/

/-- The requests made are among `P`; what later steps look at, and the list of ports, is
unchanged. -/
structure Within (P : Request → Prop) (s s' : EngineState) : Prop where
  count : ∀ r, ¬ P r → s'.requests.count r = s.requests.count r
  mono : ∀ r, s.requests.count r ≤ s'.requests.count r
  cts : s'.cts = s.cts
  proxyProcess : s'.proxyProcess = s.proxyProcess
  ports : s'.ports = s.ports
  cancelled : s.cancelled ⊆ s'.cancelled

instance (P : Request → Prop) : IsPreorder EngineState (Within P) where
  refl _ := ⟨fun _ _ => rfl, fun _ => Nat.le_refl _, rfl, rfl, rfl, List.Subset.refl _⟩
  trans _ _ _ h₁ h₂ :=
    ⟨fun r hr => (h₂.count r hr).trans (h₁.count r hr), fun r =>
      Nat.le_trans (h₁.mono r) (h₂.mono r),
      h₂.cts.trans h₁.cts, h₂.proxyProcess.trans h₁.proxyProcess, h₂.ports.trans h₁.ports,
      List.Subset.trans h₁.cancelled h₂.cancelled⟩

section

variable (W : World) (cfg : Settings)

/-- How the next request `r` would end. -/
def next (s : EngineState) (r : Request) : Except Exn r.Reply := W.reply (s.requests.count r) r

/-- The next request `r` does not throw. -/
def Answers (s : EngineState) (r : Request) : Prop := ∃ a, next W s r = .ok a

/-- Killing a process that has not exited does not throw. -/
def StopsQuietly (s : EngineState) (process : ProcessRole) : Prop :=
  next W s (.hasExited process) = .ok true ∨
    next W s (.hasExited process) = .ok false ∧ Answers W s (.kill process)

variable {W cfg}

theorem Within.next {P : Request → Prop} {s s' : EngineState} (h : Within P s s') {r : Request}
    (hr : ¬ P r) : next W s' r = next W s r := by
  rw [Services.next, Services.next, h.count r hr]

theorem ask_run (r : Request) (s : EngineState) :
    ask W r s = (next W s r, { s with requests := r :: s.requests }) := rfl

theorem ends_ask {r : Request} {s : EngineState} : Ends (ask W r) s ↔ Answers W s r := Iff.rfl

theorem moves_ask {P : Request → Prop} {r : Request} (hr : P r) : Moves (Within P) (ask W r) := by
  constructor
  intro s
  refine ⟨fun r' hr' => ?_, fun r' => ?_, rfl, rfl, rfl, List.Subset.refl _⟩
  · rw [ask_run, List.count_cons_of_ne]
    exact fun he => hr' (he ▸ hr)
  · rw [ask_run]
    exact List.count_le_count_cons

/-- A request that is made has been requested. -/
theorem requested_ask (r : Request) (s : EngineState) : Requested s (ask W r s).2 r := by
  rw [Requested, ask_run, List.count_cons_self]
  exact Nat.lt_succ_self _

/-- A change of fields that no later step looks at. -/
theorem moves_modify {P : Request → Prop} {f : EngineState → EngineState}
    (h : ∀ s, (f s).requests = s.requests ∧ (f s).cts = s.cts ∧
        (f s).proxyProcess = s.proxyProcess ∧
      (f s).ports = s.ports ∧ s.cancelled ⊆ (f s).cancelled) :
    Moves (Within P) (Eff.modify f : EngineM Unit) := by
  constructor
  intro s
  obtain ⟨hr, hc, hp, hports, hcancelled⟩ := h s
  have hcount : ∀ r, (f s).requests.count r = s.requests.count r := fun r => by rw [hr]
  exact ⟨fun r _ => hcount r, fun r => Nat.le_of_eq (hcount r).symm, hc, hp, hports,
    hcancelled⟩

theorem Within.requested {P : Request → Prop} {s s' s'' : EngineState} (h : Within P s s')
    {r : Request} (hr : ¬ P r) : Requested s s'' r ↔ Requested s' s'' r := by
  rw [Requested, Requested, h.count r hr]

theorem Within.requested_before {P : Request → Prop} {s s' s'' : EngineState} (h : Within P s' s'')
    {r : Request} (hr : Requested s s' r) : Requested s s'' r :=
  Nat.lt_of_lt_of_le hr (h.mono r)

theorem Within.weaken {P Q : Request → Prop} {s s' : EngineState} (h : Within P s s')
    (hPQ : ∀ r, P r → Q r) : Within Q s s' :=
  { h with count := fun r hr => h.count r fun hp => hr (hPQ r hp) }

theorem moves_weaken {α : Type} {P Q : Request → Prop} {m : EngineM α} (h : Moves (Within P) m)
    (hPQ : ∀ r, P r → Q r) : Moves (Within Q) m :=
  ⟨fun s => (h.run s).weaken hPQ⟩

/-- What was requested stays so. -/
theorem requested_bind {α β : Type} {P : Request → Prop} {m : EngineM α} {k : α → EngineM β}
    {s t : EngineState} {r : Request} (hm : Requested t (m s).2 r)
    (hk : ∀ a, Moves (Within P) (k a)) : Requested t ((m >>= k) s).2 r := by
  rw [Eff.bind_run]
  split <;> rename_i h
  · rw [h] at hm
    exact ((hk _).run _).requested_before hm
  · rw [h] at hm
    exact hm

theorem Within.not_requested {P : Request → Prop} {s s' : EngineState} (h : Within P s s')
    {r : Request} (hr : ¬ P r) : ¬ Requested s s' r := by
  rw [Requested, h.count r hr]
  exact Nat.lt_irrefl _

theorem Within.stopsQuietly {P : Request → Prop} {s s' : EngineState} (h : Within P s s')
    {process : ProcessRole} (hexited : ¬ P (.hasExited process)) (hkill : ¬ P (.kill process)) :
    StopsQuietly W s' process ↔ StopsQuietly W s process := by
  rw [StopsQuietly, StopsQuietly, Answers, Answers, h.next hexited, h.next hkill]

theorem moves_executeCommand {P : Request → Prop} {text : String} (h : P (command text)) :
    Moves (Within P) (executeCommand W text) :=
  Eff.moves_bind (moves_ask h) fun _ => Eff.moves_pure _

/-- What a command that answers replies. -/
theorem executeCommand_run {text : String} {s : EngineState} {reply : Bool × List String}
    (h : next W s (command text) = .ok reply) :
    executeCommand W text s = (.ok reply.1, { s with requests := command text :: s.requests }) := by
  rw [executeCommand, Eff.bind_ok (a := reply) (by rw [ask_run, h])]
  rfl

theorem executeCommand_error {text : String} {s : EngineState} {e : Exn}
    (h : next W s (command text) = .error e) :
    executeCommand W text s = (.error e, { s with requests := command text :: s.requests }) := by
  rw [executeCommand, Eff.bind_error (by rw [ask_run, h])]

theorem ends_executeCommand {text : String} {s : EngineState} :
    Ends (executeCommand W text) s ↔ Answers W s (command text) := by
  cases h : next W s (command text) with
  | ok reply =>
    refine iff_of_true ⟨reply.1, ?_⟩ ⟨reply, h⟩
    rw [executeCommand_run h]
  | error e =>
    refine iff_of_false (fun ⟨b, hb⟩ => ?_) fun ⟨b, hb⟩ => nomatch h.symm.trans hb
    rw [executeCommand_error h] at hb
    exact nomatch hb

/-- A step that makes one command and looks at nothing else. -/
theorem ends_discard {m : EngineM Bool} {s : EngineState} :
    Ends (m >>= fun _ => (pure () : EngineM Unit)) s ↔ Ends m s := by
  unfold Ends
  rw [Eff.bind_run]
  split <;> rename_i h
  · exact iff_of_true ⟨(), rfl⟩ ⟨_, congrArg Prod.fst h⟩
  · rw [h]
    exact ⟨fun ⟨_, ha⟩ => (nomatch ha), fun ⟨_, ha⟩ => (nomatch ha)⟩

/-! ## The steps -/

/-- The signal for the DNS forwarder. -/
def dnsSignal : Request := command "pkill -TERM -x dns-forwarder"

theorem moves_stopDnsForwarder : Moves (Within (· = dnsSignal)) (stopDnsForwarder W) :=
  Eff.moves_bind (moves_executeCommand rfl) fun _ => Eff.moves_pure _

theorem moves_stopDnsConfigurator : Moves (Within (· = dnsSignal)) (stopDnsConfigurator W) := by
  refine Eff.moves_bind Eff.moves_get fun s => ?_
  cases s.dnsConfigurator with
  | none => exact Eff.moves_pure ()
  | some _ => exact moves_stopDnsForwarder

theorem keeps_stopDnsConfigurator : Eff.Keeps (·.portForwarders) (stopDnsConfigurator W) := by
  refine Eff.moves_bind Eff.moves_get fun s => ?_
  cases s.dnsConfigurator with
  | none => exact Eff.moves_pure ()
  | some _ =>
    refine Eff.moves_bind ?_ fun _ => Eff.moves_pure _
    exact Eff.moves_bind ⟨fun _ => rfl⟩ fun _ => Eff.moves_pure _

theorem ends_stopDnsConfigurator {s : EngineState} :
    Ends (stopDnsConfigurator W) s ↔ (s.dnsConfigurator ≠ none → Answers W s dnsSignal) := by
  rw [stopDnsConfigurator, Ends, Eff.bind_ok (Eff.get_run s)]
  cases hd : s.dnsConfigurator with
  | none => exact iff_of_true ⟨(), rfl⟩ fun h => absurd rfl h
  | some forwarder =>
    have h : Ends (stopDnsForwarder W) s ↔ Answers W s dnsSignal :=
      ends_discard.trans ends_executeCommand
    exact h.trans ⟨fun ha _ => ha, fun ha => ha (Option.some_ne_none forwarder)⟩

/-- The requests that stop a process. -/
def Stopping (process : ProcessRole) (r : Request) : Prop :=
  r = .hasExited process ∨ r = .kill process

theorem moves_stopProcess (process : ProcessRole) :
    Moves (Within (Stopping process)) (stopProcess W process) := by
  refine Eff.moves_bind (moves_ask (.inl rfl)) fun exited => ?_
  split
  · exact moves_ask (.inr rfl)
  · exact Eff.moves_pure ()

theorem ends_stopProcess {process : ProcessRole} {s : EngineState} :
    Ends (stopProcess W process) s ↔ StopsQuietly W s process := by
  have hkill : next W { s with requests := .hasExited process :: s.requests } (.kill process)
      = next W s (.kill process) := by
    have h := (moves_ask (W := W) (P := (· = Request.hasExited process)) rfl).run s
    exact h.next fun he => nomatch he
  unfold StopsQuietly Ends stopProcess
  cases h : next W s (.hasExited process) with
  | error e =>
    rw [Eff.bind_error (by rw [ask_run, h])]
    simp
  | ok exited =>
    rw [Eff.bind_ok (a := exited) (by rw [ask_run, h])]
    cases exited with
    | true => exact iff_of_true ⟨(), rfl⟩ (.inl rfl)
    | false =>
      rw [if_pos rfl, ask_run, hkill]
      simp [Answers]

/-- Stopping a process begins with asking for it. -/
theorem stopProcess_requested (process : ProcessRole) (s : EngineState) :
    Requested s (stopProcess W process s).2 (.hasExited process) := by
  refine requested_bind (P := Stopping process) (requested_ask _ s) fun exited => ?_
  split
  · exact moves_ask (.inr rfl)
  · exact Eff.moves_pure ()

/-- A process that runs is killed. -/
theorem stopProcess_kills {process : ProcessRole} {s : EngineState}
    (h : next W s (.hasExited process) = .ok false) :
    Requested s (stopProcess W process s).2 (.kill process) := by
  rw [stopProcess, Eff.bind_ok (a := false) (by rw [ask_run, h]), if_pos rfl]
  have hasked := (moves_ask (W := W) (P := (· = Request.hasExited process)) rfl).run s
  have hkill : ¬ Request.kill process = .hasExited process := fun he => nomatch he
  exact (hasked.requested hkill).mpr (requested_ask (.kill process) _)

/-! ### Port forwarders -/

/-- The requests that stop a port forwarder. -/
def ForwarderRequest (r : Request) : Prop := ∃ key, Stopping (.forwarder key) r

theorem moves_stopForwarder (key : ForwarderKey) :
    Moves (Within ForwarderRequest) (stopProcess W (.forwarder key)) :=
  ⟨fun s => (moves_stopProcess (W := W) (.forwarder key)).run s |>.weaken fun _ hr => ⟨key, hr⟩⟩

theorem moves_stopForwarders (keys : List ForwarderKey) :
    Moves (Within ForwarderRequest) (stopForwarders W keys) :=
  Eff.moves_forEach keys fun key _ => moves_stopForwarder key

/-- Another forwarder's requests. -/
theorem not_stopping_forwarder {key key' : ForwarderKey} (h : key' ≠ key) :
    ¬ Stopping (.forwarder key) (.hasExited (.forwarder key')) ∧
      ¬ Stopping (.forwarder key) (.kill (.forwarder key')) := by
  simp [Stopping, h]

/-- **All forwarders are told to stop exactly when none but the last throws.** -/
theorem stopForwarders_told : ∀ {keys : List ForwarderKey} {s : EngineState}, keys.Nodup →
    ((∀ key ∈ keys, Requested s (stopForwarders W keys s).2 (.hasExited (.forwarder key))) ↔
      ∀ key ∈ keys.dropLast, StopsQuietly W s (.forwarder key)) := by
  intro keys
  induction keys with
  | nil =>
    intro s _; exact iff_of_true (fun _ h => absurd h List.not_mem_nil) fun _ h =>
      absurd h List.not_mem_nil
  | cons key rest ih =>
    intro s hnodup
    obtain ⟨hnot, hrest⟩ := List.nodup_cons.mp hnodup
    have hother : ∀ key' ∈ rest, key' ≠ key := fun key' h he => hnot (he ▸ h)
    have hself : Requested s (stopProcess W (.forwarder key) s).2 (.hasExited (.forwarder key)) :=
      stopProcess_requested _ s
    have hwithin := (moves_stopProcess (W := W) (.forwarder key)).run s
    rw [stopForwarders, Eff.forEach_cons]
    by_cases hends : Ends (stopProcess W (.forwarder key)) s
    · rw [Eff.seq_of_ends hends, List.forall_mem_cons]
      have hfirst := ((moves_stopForwarders (W := W) rest).run _).requested_before hself
      have hlater : (∀ key' ∈ rest, Requested s
            (stopForwarders W rest (stopProcess W (.forwarder key) s).2).2
            (.hasExited (.forwarder key'))) ↔
          ∀ key' ∈ rest.dropLast, StopsQuietly W s (.forwarder key') := by
        have hih := ih (s := (stopProcess W (.forwarder key) s).2) hrest
        refine Iff.trans (forall₂_congr fun key' hkey' => ?_) (hih.trans ?_)
        · exact hwithin.requested (not_stopping_forwarder (hother key' hkey')).1
        · refine forall₂_congr fun key' hkey' => ?_
          have hne := not_stopping_forwarder
            (hother key' ((List.dropLast_sublist rest).subset hkey'))
          exact hwithin.stopsQuietly hne.1 hne.2
      refine ((and_iff_right hfirst).trans hlater).trans ?_
      cases rest with
      | nil => exact Iff.rfl
      | cons key' rest =>
        rw [List.dropLast_cons_cons, List.forall_mem_cons]
        exact (and_iff_right (ends_stopProcess.mp hends)).symm
    · rw [(Eff.seq_of_not_ends hends).1]
      cases rest with
      | nil =>
        exact iff_of_true (fun key' h => List.mem_singleton.mp h ▸ hself) fun _ h =>
          absurd h List.not_mem_nil
      | cons key' rest =>
        refine iff_of_false (fun h => ?_) fun h => hends
          (ends_stopProcess.mpr (h key List.mem_cons_self))
        have hkey' := h key' (List.mem_cons_of_mem key List.mem_cons_self)
        exact hwithin.not_requested (not_stopping_forwarder
          (hother key' List.mem_cons_self)).1 hkey'

theorem moves_stopPortForwarding : Moves (Within ForwarderRequest) (stopPortForwarding W) := by
  refine Eff.moves_bind Eff.moves_get fun s => ?_
  refine Eff.moves_bind ?_ fun _ => moves_modify fun _ => ⟨rfl, rfl, rfl, rfl, List.Subset.refl _⟩
  exact Eff.moves_catching (moves_stopForwarders _) fun _ => Eff.moves_pure ()

/-- The exceptions are swallowed. -/
theorem stopPortForwarding_run (s : EngineState) :
    stopPortForwarding W s = (.ok (),
      { (stopForwarders W s.portForwarders.items s).2 with
        portForwarders := .empty }) := by
  rw [stopPortForwarding, Eff.bind_ok (Eff.get_run s)]
  rcases h : stopForwarders W s.portForwarders.items s with ⟨_ | _, s'⟩
  · rw [Eff.bind_ok (Eff.catching_error h)]
    rfl
  · rw [Eff.bind_ok (Eff.catching_ok h)]
    rfl

/-! ### Distributions -/

/-- The commands that undo distributions. -/
def DistroRequest (r : Request) : Prop := ∃ name, r = distroRm name

/-- A distribution can be disabled. -/
def Disables (W : World) (s : EngineState) (name : String) : Prop :=
  ∃ lines, next W s (distroRm name) = .ok (true, lines)

theorem moves_disableDistro (name : String) :
    Moves (Within (· = distroRm name)) (disableDistro W name) := by
  refine Eff.moves_bind (moves_modify fun _ => ⟨rfl, rfl, rfl, rfl, List.Subset.refl _⟩) fun _ => ?_
  refine Eff.moves_bind (moves_ask rfl) fun reply => ?_
  split
  · exact Eff.moves_pure ()
  · exact Eff.moves_throw _

theorem ends_disableDistro {name : String} {s : EngineState} :
    Ends (disableDistro W name) s ↔ Disables W s name := by
  have hrm : ∀ t : EngineState,
      Ends (ask W (distroRm name) >>= fun reply =>
          if reply.1 = true then (pure () : EngineM Unit)
          else Eff.throw (.containerEngine ("Could not disable the distribution " ++ name))) t ↔
        Disables W t name := by
    intro t
    unfold Ends Disables
    cases h : next W t (distroRm name) with
    | error e =>
      rw [Eff.bind_error (by rw [ask_run, h])]
      exact iff_of_false (fun ⟨_, ha⟩ => (nomatch ha)) fun ⟨_, ha⟩ => (nomatch ha)
    | ok reply =>
      rw [Eff.bind_ok (a := reply) (by rw [ask_run, h])]
      obtain ⟨success, lines⟩ := reply
      cases success with
      | true => exact iff_of_true ⟨(), rfl⟩ ⟨lines, rfl⟩
      | false => exact iff_of_false (fun ⟨_, ha⟩ => (nomatch ha)) fun ⟨_, ha⟩ => (nomatch ha)
  exact Eff.ends_seq.trans ((and_iff_right (Eff.ends_modify _ s)).trans (hrm _))

theorem moves_disableDistros (names : List String) :
    Moves (Within DistroRequest) (Eff.forEach (disableDistro W) names) :=
  Eff.moves_forEach names fun name _ =>
    ⟨fun s => ((moves_disableDistro (W := W) name).run s).weaken fun _ hr => ⟨name, hr⟩⟩

theorem ends_disableDistros : ∀ {names : List String} {s : EngineState}, names.Nodup →
    (Ends (Eff.forEach (disableDistro W) names) s ↔ ∀ name ∈ names, Disables W s name) := by
  intro names
  induction names with
  | nil => intro s _; exact iff_of_true ⟨(), rfl⟩ fun _ h => absurd h List.not_mem_nil
  | cons name rest ih =>
    intro s hnodup
    obtain ⟨hnot, hrest⟩ := List.nodup_cons.mp hnodup
    rw [Eff.forEach_cons, Eff.ends_seq, ends_disableDistro, ih hrest, List.forall_mem_cons]
    refine and_congr_right fun _ => forall₂_congr fun name' hname' => ?_
    have hother : ¬ distroRm name' = distroRm name := by
      intro he
      injection he with _ hname _
      exact hnot (hname ▸ hname')
    rw [Disables, Disables, ((moves_disableDistro (W := W) name).run s).next hother]

/-! ### Proxy, cancellation and daemon -/

theorem moves_stopProxy : Moves (Within (Stopping .proxy)) (stopProxy W) := by
  refine Eff.moves_bind Eff.moves_get fun s => ?_
  split
  · exact moves_stopProcess .proxy
  · exact Eff.moves_pure ()

theorem stopProxy_run (s : EngineState) :
    stopProxy W s = if s.proxyProcess then stopProcess W .proxy s else (.ok (), s) := by
  rw [stopProxy, Eff.bind_ok (Eff.get_run s)]
  split <;> rfl

theorem ends_stopProxy {s : EngineState} :
    Ends (stopProxy W) s ↔ (s.proxyProcess = true → StopsQuietly W s .proxy) := by
  unfold Ends
  rw [stopProxy_run]
  by_cases hp : s.proxyProcess = true
  · rw [if_pos hp]
    exact ends_stopProcess.trans ⟨fun h _ => h, fun h => h hp⟩
  · rw [if_neg hp]
    exact iff_of_true ⟨(), rfl⟩ fun h => absurd h hp

theorem moves_cancel : Moves (Within fun _ => False) cancel := by
  refine Eff.moves_bind Eff.moves_get fun s => ?_
  cases s.cts with
  | none => exact Eff.moves_throw _
  | some source => exact moves_modify fun _ => ⟨rfl, rfl, rfl, rfl, List.subset_cons_self _ _⟩

theorem ends_cancel {s : EngineState} : Ends cancel s ↔ s.cts ≠ none := by
  rw [cancel, Ends, Eff.bind_ok (Eff.get_run s)]
  cases s.cts with
  | none => exact iff_of_false (fun ⟨_, h⟩ => (nomatch h)) fun h => h rfl
  | some source => exact iff_of_true ⟨(), rfl⟩ (Option.some_ne_none source)

theorem cancel_cancels {s : EngineState} {source : Nat} (h : s.cts = some source) :
    source ∈ (cancel s).2.cancelled := by
  rw [cancel, Eff.bind_ok (Eff.get_run s)]
  simp only [h]
  exact List.mem_cons_self

/-- The signal for the daemon, and the question whether it is still there. -/
def daemonSignal : Request := command "pkill -TERM dockerd"

def daemonPoll : Request := command "pgrep dockerd"

def DaemonRequest (r : Request) : Prop := r = daemonSignal ∨ r = daemonPoll

/-- No poll of the daemon throws; `i` have been made, and `n` more can be made after the next. -/
def PollsAnswer (W : World) : (n i : Nat) → Prop
  | 0, i => ∃ reply, W.reply i daemonPoll = .ok reply
  | n + 1, i =>
    match W.reply i daemonPoll with
    | .error _ => False
    | .ok (running, _) => running = true → PollsAnswer W n (i + 1)

/-- Stopping the daemon does not throw. -/
def DaemonAnswers (W : World) (s : EngineState) : Prop :=
  match next W s daemonSignal with
  | .error _ => False
  | .ok (found, _) => found = true →
    PollsAnswer W (W.pgrepTimer (s.requests.count daemonSignal + 1)) (s.requests.count daemonPoll)

theorem moves_spinUntilStopped :
    ∀ n : Nat, Moves (Within DaemonRequest) (spinUntilStopped W n) := by
  intro n
  induction n with
  | zero => exact Eff.moves_bind (moves_executeCommand (.inr rfl)) fun _ => Eff.moves_pure _
  | succ n ih =>
    refine Eff.moves_bind (moves_executeCommand (.inr rfl)) fun running => ?_
    split
    · exact ih
    · exact Eff.moves_pure ()

theorem ends_spinUntilStopped : ∀ {n : Nat} {s : EngineState},
    Ends (spinUntilStopped W n) s ↔ PollsAnswer W n (s.requests.count daemonPoll) := by
  intro n
  induction n with
  | zero => intro s; exact ends_discard.trans ends_executeCommand
  | succ n ih =>
    intro s
    unfold spinUntilStopped PollsAnswer Ends
    cases h : W.reply (s.requests.count daemonPoll) daemonPoll with
    | error e =>
      rw [Eff.bind_error (executeCommand_error h)]
      exact iff_of_false (fun ⟨_, ha⟩ => (nomatch ha)) fun h => h
    | ok reply =>
      rw [Eff.bind_ok (executeCommand_run h)]
      obtain ⟨running, lines⟩ := reply
      cases running with
      | false => exact iff_of_true ⟨(), rfl⟩ fun h => nomatch h
      | true =>
        rw [if_pos rfl]
        refine Iff.trans ih ?_
        rw [show (command "pgrep dockerd" :: s.requests).count daemonPoll
          = s.requests.count daemonPoll + 1 from List.count_cons_self]
        exact ⟨fun h _ => h, fun h => h rfl⟩

theorem moves_stopDaemon : Moves (Within DaemonRequest) (stopDaemon W) := by
  refine Eff.moves_bind (moves_executeCommand (.inl rfl)) fun found => ?_
  split
  · exact Eff.moves_bind Eff.moves_get fun _ => moves_spinUntilStopped _
  · exact Eff.moves_pure ()

theorem ends_stopDaemon {s : EngineState} : Ends (stopDaemon W) s ↔ DaemonAnswers W s := by
  unfold stopDaemon DaemonAnswers Ends
  cases h : next W s daemonSignal with
  | error e =>
    rw [Eff.bind_error (executeCommand_error h)]
    exact iff_of_false (fun ⟨_, ha⟩ => (nomatch ha)) fun h => h
  | ok reply =>
    rw [Eff.bind_ok (executeCommand_run h)]
    obtain ⟨found, lines⟩ := reply
    cases found with
    | false => exact iff_of_true ⟨(), rfl⟩ fun h => nomatch h
    | true =>
      rw [if_pos rfl, Eff.bind_ok (Eff.get_run _)]
      refine Iff.trans ends_spinUntilStopped ?_
      have hsignal : (command "pkill -TERM dockerd" :: s.requests).count
        (command "pkill -TERM dockerd")
          = s.requests.count daemonSignal + 1 := List.count_cons_self
      have hpoll : (command "pkill -TERM dockerd" :: s.requests).count daemonPoll
          = s.requests.count daemonPoll := List.count_cons_of_ne (by decide)
      rw [hsignal, hpoll]
      exact ⟨fun h _ => h, fun h => h rfl⟩

theorem moves_terminate (distroName : String) :
    Moves (Within (· = .terminate distroName)) (terminate W distroName) :=
  Eff.moves_bind (moves_ask rfl) fun _ => Eff.moves_pure _

theorem ends_terminate {distroName : String} {s : EngineState} :
    Ends (terminate W distroName) s ↔ Answers W s (.terminate distroName) :=
  ends_discard.trans ends_ask

theorem terminate_requested (distroName : String) (s : EngineState) :
    Requested s (terminate W distroName s).2 (.terminate distroName) :=
  requested_bind (P := fun _ => False) (requested_ask _ s) fun _ => Eff.moves_pure _

/-! ## The whole of `Stop`

The states between the steps, as long as no step throws. -/

theorem Within.answers {P : Request → Prop} {s s' : EngineState} (h : Within P s s') {r : Request}
    (hr : ¬ P r) : Answers W s' r ↔ Answers W s r := by
  rw [Answers, Answers, h.next hr]

theorem Within.daemonAnswers {P : Request → Prop} {s s' : EngineState} (h : Within P s s')
    (hsignal : ¬ P daemonSignal) (hpoll : ¬ P daemonPoll) :
    DaemonAnswers W s' ↔ DaemonAnswers W s := by
  rw [DaemonAnswers, DaemonAnswers, h.next hsignal, h.count _ hsignal, h.count _ hpoll]

/-- A step before the one that makes the request `r`. -/
theorem requested_seq {P : Request → Prop} {m k : EngineM Unit} {r : Request} {s : EngineState}
    (hm : Moves (Within P) m) (hr : ¬ P r) :
    Requested s ((m >>= fun _ => k) s).2 r ↔ Ends m s ∧ Requested (m s).2 (k (m s).2).2 r := by
  by_cases hends : Ends m s
  · rw [and_iff_right hends, Eff.seq_of_ends hends]
    exact (hm.run s).requested hr
  · rw [(Eff.seq_of_not_ends hends).1]
    exact iff_of_false ((hm.run s).not_requested hr) fun h => hends h.1

end

section

variable (W : World) (cfg : Settings) (s : EngineState)

def beforeDns : EngineState := (setRunningState .stopping s).2

def beforePorts : EngineState := (stopDnsConfigurator W (beforeDns s)).2

def beforeDistros : EngineState := (stopPortForwarding W (beforePorts W s)).2

def beforeProxy : EngineState := (stopDistros W cfg (beforeDistros W s)).2

def beforeCancel : EngineState := (stopProxy W (beforeProxy W cfg s)).2

def beforeDaemon : EngineState := (cancel (beforeCancel W cfg s)).2

def beforeTermination : EngineState := (stopDaemon W (beforeDaemon W cfg s)).2

/-- The requests before the proxy is stopped. -/
def EarlyRequest (r : Request) : Prop := r = dnsSignal ∨ ForwarderRequest r ∨ DistroRequest r

/-- The requests before the daemon is stopped. -/
def BeforeDaemonRequest (r : Request) : Prop := EarlyRequest r ∨ Stopping .proxy r

/-- No step of `Stop` throws before the last one. -/
structure Completes : Prop where
  dns : s.dnsConfigurator ≠ none → Answers W s dnsSignal
  distros : ∀ name ∈ cfg.enabledDistributions.items, Disables W s name
  proxy : s.proxyProcess = true → StopsQuietly W s .proxy
  source : s.cts ≠ none
  daemon : DaemonAnswers W s
  termination : Answers W s (.terminate containerDesktopDistroName)

/-- Nor does a port forwarder that another one comes after. -/
structure Uninterrupted : Prop extends Completes W cfg s where
  forwarders : ∀ key ∈ s.portForwarders.items.dropLast, StopsQuietly W s (.forwarder key)

/-- What is to be done between two states when the engine is stopped. -/
structure CarriedOut (s' : EngineState) : Prop where
  proxy : s.proxyProcess = true → next W s (.hasExited .proxy) = .ok false →
    Requested s s' (.kill .proxy)
  forwarders : ∀ key ∈ s.portForwarders.items, Requested s s' (.hasExited (.forwarder key))
  cancelled : ∀ source, s.cts = some source → source ∈ s'.cancelled
  terminated : Requested s s' (.terminate containerDesktopDistroName)
  dataTerminated : Requested s s' (.terminate containerDesktopDataDistroName)

end

section

variable {W : World} {cfg : Settings} {s : EngineState}

theorem moves_setRunningState (state : RunningState) :
    Moves (Within fun _ => False) (setRunningState state) :=
  moves_modify fun _ => ⟨rfl, rfl, rfl, rfl, List.Subset.refl _⟩

theorem within_beforeDns : Within (fun _ => False) s (beforeDns s) :=
  (moves_setRunningState .stopping).run s

theorem within_beforePorts : Within (· = dnsSignal) s (beforePorts W s) :=
  trans_of (Within (· = dnsSignal)) (within_beforeDns.weaken fun _ h => h.elim)
    (moves_stopDnsConfigurator.run _)

theorem within_beforeDistros :
    Within (fun r => r = dnsSignal ∨ ForwarderRequest r) s (beforeDistros W s) :=
  trans_of (Within fun r => r = dnsSignal ∨ ForwarderRequest r)
    (within_beforePorts.weaken fun _ => .inl)
    ((moves_stopPortForwarding.run _).weaken fun _ => .inr)

theorem within_beforeProxy : Within EarlyRequest s (beforeProxy W cfg s) :=
  trans_of (Within EarlyRequest)
    (within_beforeDistros.weaken fun _ h => h.elim .inl fun h => .inr (.inl h))
    (((moves_disableDistros _).run _).weaken fun _ h => .inr (.inr h))

theorem within_beforeCancel : Within BeforeDaemonRequest s (beforeCancel W cfg s) :=
  trans_of (Within BeforeDaemonRequest) (within_beforeProxy.weaken fun _ => .inl)
    ((moves_stopProxy.run _).weaken fun _ => .inr)

theorem within_beforeDaemon : Within BeforeDaemonRequest s (beforeDaemon W cfg s) :=
  trans_of (Within BeforeDaemonRequest) within_beforeCancel
    ((moves_cancel.run _).weaken fun _ h => h.elim)

theorem within_beforeTermination :
    Within (fun r => BeforeDaemonRequest r ∨ DaemonRequest r) s (beforeTermination W cfg s) :=
  trans_of (Within fun r => BeforeDaemonRequest r ∨ DaemonRequest r)
    (within_beforeDaemon.weaken fun _ => .inl) ((moves_stopDaemon.run _).weaken fun _ => .inr)

/-! ### When each step ends -/

theorem ends_dns : Ends (stopDnsConfigurator W) (beforeDns s) ↔
    (s.dnsConfigurator ≠ none → Answers W s dnsSignal) :=
  ends_stopDnsConfigurator.trans (imp_congr_right fun _ => within_beforeDns.answers id)

theorem not_distroRm {name : String} :
    ¬ (distroRm name = dnsSignal ∨ ForwarderRequest (distroRm name)) := by
  simp [distroRm, dnsSignal, ForwarderRequest, Stopping]

theorem ends_distros : Ends (stopDistros W cfg) (beforeDistros W s) ↔
    ∀ name ∈ cfg.enabledDistributions.items, Disables W s name := by
  refine (ends_disableDistros cfg.enabledDistributions.nodup).trans (forall₂_congr fun name _ => ?_)
  rw [Disables, Disables, within_beforeDistros.next not_distroRm]

theorem not_early_proxy : ¬ EarlyRequest (.hasExited .proxy) ∧ ¬ EarlyRequest (.kill .proxy) := by
  simp [EarlyRequest, dnsSignal, ForwarderRequest, DistroRequest, Stopping]

theorem ends_proxy : Ends (stopProxy W) (beforeProxy W cfg s) ↔
    (s.proxyProcess = true → StopsQuietly W s .proxy) := by
  rw [ends_stopProxy, within_beforeProxy.proxyProcess,
    within_beforeProxy.stopsQuietly not_early_proxy.1 not_early_proxy.2]

theorem ends_source : Ends cancel (beforeCancel W cfg s) ↔ s.cts ≠ none := by
  rw [ends_cancel, within_beforeCancel.cts]

theorem not_beforeDaemon_daemon :
    ¬ BeforeDaemonRequest daemonSignal ∧ ¬ BeforeDaemonRequest daemonPoll := by
  simp [BeforeDaemonRequest, EarlyRequest, dnsSignal, daemonSignal, daemonPoll, ForwarderRequest,
    DistroRequest, Stopping]

theorem ends_daemon : Ends (stopDaemon W) (beforeDaemon W cfg s) ↔ DaemonAnswers W s :=
  ends_stopDaemon.trans
    (within_beforeDaemon.daemonAnswers not_beforeDaemon_daemon.1 not_beforeDaemon_daemon.2)

theorem not_beforeTermination_terminate {name : String} :
    ¬ (BeforeDaemonRequest (.terminate name) ∨ DaemonRequest (.terminate name)) := by
  simp [BeforeDaemonRequest, EarlyRequest, DaemonRequest, dnsSignal, daemonSignal, daemonPoll,
    ForwarderRequest, DistroRequest, Stopping]

theorem ends_termination :
    Ends (terminate W containerDesktopDistroName) (beforeTermination W cfg s) ↔
    Answers W s (.terminate containerDesktopDistroName) :=
  ends_terminate.trans (within_beforeTermination.answers not_beforeTermination_terminate)

/-! ### What is done -/

theorem ends_ports : Ends (stopPortForwarding W) (beforePorts W s) := by
  rw [Ends, stopPortForwarding_run]
  exact ⟨(), rfl⟩

/-- The last request is made exactly when no step before it throws. -/
theorem dataTerminated_iff :
    Requested s (stopSteps W cfg s).2 (.terminate containerDesktopDataDistroName) ↔
      Completes W cfg s := by
  have hnot : ∀ {name : String}, ¬ EarlyRequest (.terminate name) := fun h =>
    not_beforeTermination_terminate (.inl (.inl h))
  have hiff : Completes W cfg s ↔ (s.dnsConfigurator ≠ none → Answers W s dnsSignal) ∧
      (∀ name ∈ cfg.enabledDistributions.items, Disables W s name) ∧
      (s.proxyProcess = true → StopsQuietly W s .proxy) ∧ s.cts ≠ none ∧ DaemonAnswers W s ∧
      Answers W s (.terminate containerDesktopDistroName) :=
    ⟨fun h => ⟨h.dns, h.distros, h.proxy, h.source, h.daemon, h.termination⟩,
      fun ⟨h₁, h₂, h₃, h₄, h₅, h₆⟩ => ⟨h₁, h₂, h₃, h₄, h₅, h₆⟩⟩
  rw [hiff]
  refine (requested_seq (moves_setRunningState _) id).trans
    ((and_iff_right (Eff.ends_modify _ s)).trans ?_)
  refine (requested_seq moves_stopDnsConfigurator fun h => hnot (.inl h)).trans
    (and_congr ends_dns ?_)
  refine (requested_seq moves_stopPortForwarding fun h => hnot (.inr (.inl h))).trans
    ((and_iff_right ends_ports).trans ?_)
  refine (requested_seq (moves_disableDistros _) fun h => hnot (.inr (.inr h))).trans
    (and_congr ends_distros ?_)
  refine (requested_seq moves_stopProxy fun h => not_beforeTermination_terminate
    (.inl (.inr h))).trans (and_congr ends_proxy ?_)
  refine (requested_seq moves_cancel id).trans (and_congr ends_source ?_)
  refine (requested_seq moves_stopDaemon fun h => not_beforeTermination_terminate (.inr h)).trans
    (and_congr ends_daemon ?_)
  refine (requested_seq (moves_terminate _) (by decide)).trans
    ((and_congr_left' ends_termination).trans ?_)
  exact and_iff_left (terminate_requested _ _)

/-- After the port forwarders, none of them is told to stop. -/
theorem within_afterPorts (h : s.dnsConfigurator ≠ none → Answers W s dnsSignal) :
    Within (fun r => ¬ ForwarderRequest r) (beforeDistros W s) (stopSteps W cfg s).2 := by
  have hdistro : ∀ r, DistroRequest r → ¬ ForwarderRequest r := by
    rintro _ ⟨name, rfl⟩
    simp [ForwarderRequest, Stopping]
  have hproxy : ∀ r, Stopping .proxy r → ¬ ForwarderRequest r := by
    rintro _ (rfl | rfl) <;> simp [ForwarderRequest, Stopping]
  have hdaemon : ∀ r, DaemonRequest r → ¬ ForwarderRequest r := by
    rintro _ (rfl | rfl) <;> simp [daemonSignal, daemonPoll, ForwarderRequest, Stopping]
  have hterminate : ∀ name r, r = .terminate name → ¬ ForwarderRequest r := by
    rintro name _ rfl
    simp [ForwarderRequest, Stopping]
  have hrun : stopSteps W cfg s = (stopDistros W cfg >>= fun _ => stopProxy W >>= fun _ =>
      cancel >>= fun _ => stopDaemon W >>= fun _ => terminate W containerDesktopDistroName >>=
      fun _ => terminate W containerDesktopDataDistroName) (beforeDistros W s) := by
    refine (Eff.seq_of_ends (Eff.ends_modify _ s)).trans ?_
    refine (Eff.seq_of_ends (ends_dns.mpr h)).trans ?_
    exact Eff.seq_of_ends ends_ports
  rw [hrun]
  refine (Eff.moves_bind (moves_weaken (moves_disableDistros _) hdistro) fun _ => ?_).run _
  refine Eff.moves_bind (moves_weaken moves_stopProxy hproxy) fun _ => ?_
  refine Eff.moves_bind (moves_weaken moves_cancel fun _ => False.elim) fun _ => ?_
  refine Eff.moves_bind (moves_weaken moves_stopDaemon hdaemon) fun _ => ?_
  refine Eff.moves_bind (moves_weaken (moves_terminate _) (hterminate _)) fun _ => ?_
  exact moves_weaken (moves_terminate _) (hterminate _)

/-- **All forwarders of the table are told to stop exactly when none but the last throws.** -/
theorem forwarders_iff (h : s.dnsConfigurator ≠ none → Answers W s dnsSignal) :
    (∀ key ∈ s.portForwarders.items,
        Requested s (stopSteps W cfg s).2 (.hasExited (.forwarder key))) ↔
      ∀ key ∈ s.portForwarders.items.dropLast, StopsQuietly W s (.forwarder key) := by
  have hnot : ∀ key, ¬ Request.hasExited (.forwarder key) = dnsSignal ∧
      ¬ Request.kill (.forwarder key) = dnsSignal := by simp [dnsSignal]
  have hitems : (beforePorts W s).portForwarders = s.portForwarders :=
    keeps_stopDnsConfigurator.run (beforeDns s)
  have htold := stopForwarders_told (W := W) (s := beforePorts W s) s.portForwarders.nodup
  refine Iff.trans (forall₂_congr fun key _ => ?_) (htold.trans (forall₂_congr fun key _ => ?_))
  · have hrun : (beforeDistros W s).requests
        = (stopForwarders W s.portForwarders.items (beforePorts W s)).2.requests := by
      rw [beforeDistros, stopPortForwarding_run, hitems]
    have hforwarder : ¬ ¬ ForwarderRequest (.hasExited (.forwarder key)) :=
      not_not_intro ⟨key, .inl rfl⟩
    rw [within_beforePorts.requested (hnot key).1, Requested, Requested,
      (within_afterPorts h).count _ hforwarder, hrun]
  · exact within_beforePorts.stopsQuietly (hnot key).1 (hnot key).2

/-- The state that `Stop` reaches when no step but the last throws. -/
theorem stopSteps_snd (h : Completes W cfg s) :
    (stopSteps W cfg s).2 = (terminate W containerDesktopDataDistroName
      (terminate W containerDesktopDistroName (beforeTermination W cfg s)).2).2 := by
  apply congrArg Prod.snd
  refine (Eff.seq_of_ends (Eff.ends_modify _ s)).trans ?_
  refine (Eff.seq_of_ends (ends_dns.mpr h.dns)).trans ?_
  refine (Eff.seq_of_ends ends_ports).trans ?_
  refine (Eff.seq_of_ends (ends_distros.mpr h.distros)).trans ?_
  refine (Eff.seq_of_ends (ends_proxy.mpr h.proxy)).trans ?_
  refine (Eff.seq_of_ends (ends_source.mpr h.source)).trans ?_
  refine (Eff.seq_of_ends (ends_daemon.mpr h.daemon)).trans ?_
  exact Eff.seq_of_ends (ends_termination.mpr h.termination)

theorem carriedOut (h : Uninterrupted W cfg s) : CarriedOut W s (stopSteps W cfg s).2 := by
  have hdata := dataTerminated_iff.mpr h.toCompletes
  have hforwarders : ∀ key ∈ s.portForwarders.items,
      Requested s (stopSteps W cfg s).2 (.hasExited (.forwarder key)) :=
    (forwarders_iff h.dns).mpr h.forwarders
  rw [stopSteps_snd h.toCompletes] at hdata hforwarders ⊢
  -- what is done before the terminations is not undone by them
  have hmain := (moves_terminate (W := W) containerDesktopDistroName).run
    (beforeTermination W cfg s)
  have hlast := (moves_terminate (W := W) containerDesktopDataDistroName).run
    (terminate W containerDesktopDistroName (beforeTermination W cfg s)).2
  have hdaemon : Within DaemonRequest (beforeDaemon W cfg s) (beforeTermination W cfg s) :=
    moves_stopDaemon.run _
  refine ⟨fun hp hrunning => ?_, hforwarders, fun source hcts => ?_, ?_, hdata⟩
  · have hkill : Requested s (beforeCancel W cfg s) (.kill .proxy) := by
      have hbefore : Within EarlyRequest s (beforeProxy W cfg s) := within_beforeProxy
      rw [hbefore.requested not_early_proxy.2, beforeCancel, stopProxy_run, hbefore.proxyProcess,
        if_pos hp]
      exact stopProcess_kills ((hbefore.next not_early_proxy.1).trans hrunning)
    have hcancel : Within (fun _ => False) (beforeCancel W cfg s) (beforeDaemon W cfg s) :=
      moves_cancel.run _
    exact hlast.requested_before
      (hmain.requested_before (hdaemon.requested_before (hcancel.requested_before hkill)))
  · have hsource : source ∈ (beforeDaemon W cfg s).cancelled :=
      cancel_cancels (within_beforeCancel.cts.trans hcts)
    exact hlast.cancelled (hmain.cancelled (hdaemon.cancelled hsource))
  · refine hlast.requested_before ?_
    exact (within_beforeTermination.requested not_beforeTermination_terminate).mpr
      (terminate_requested _ _)

/-- **When `Stop` has ended and the engine reads as stopped, all was done exactly if nothing threw
before the last forwarder and the last termination.** -/
theorem carriedOut_iff :
    ((stop W cfg s).2.runningState = .stopped → CarriedOut W s (stop W cfg s).2) ↔
      Uninterrupted W cfg s := by
  have hstop : CarriedOut W s (stop W cfg s).2 ↔ CarriedOut W s (stopSteps W cfg s).2 := by
    rw [stop_snd]
    exact ⟨fun h => ⟨h.proxy, h.forwarders, h.cancelled, h.terminated, h.dataTerminated⟩,
      fun h => ⟨h.proxy, h.forwarders, h.cancelled, h.terminated, h.dataTerminated⟩⟩
  have hstopped : (stop W cfg s).2.runningState = .stopped := by rw [stop_snd]
  rw [forall_prop_of_true hstopped, hstop]
  refine ⟨fun h => ?_, carriedOut⟩
  have hcompletes := dataTerminated_iff.mp h.dataTerminated
  exact { hcompletes with forwarders := (forwarders_iff hcompletes.dns).mp h.forwarders }

end

/-! ### A distribution that cannot be disabled -/

/-- Nothing throws and processes run, but `wsl-distro-rm.sh` exits with one. -/
def failingRm : World :=
  { calm with
    reply := fun n r =>
      match r with
      | .executeCommand _ _ (some _) => .ok (false, [])
      | r => calm.reply n r }

def oneDistribution : Settings where
  enabledDistributions := ⟨["Ubuntu"], by decide⟩
  portForwardInterfaces := []
  daemonConfig := "{}"
  certificates := []

/-- The engine after `Start`. -/
def started : EngineState :=
  (start failingRm oneDistribution "C:\\certs\\" "/mnt/host/c/certs" .init).2

/-- After one distribution fails, the proxy is neither looked at nor killed. -/
theorem stop_leaves_proxy :
    started.runningState = .running ∧ started.cts = some 0 ∧ started.proxyProcess = true ∧
      (stop failingRm oneDistribution started).2.runningState = .stopped ∧
      ¬ Requested started (stop failingRm oneDistribution started).2 (.kill .proxy) ∧
      ¬ CarriedOut failingRm started (stop failingRm oneDistribution started).2 := by
  have hkill : ¬ Requested started (stop failingRm oneDistribution started).2 (.kill .proxy) := by
    unfold Requested
    decide +kernel
  have hproxy : started.proxyProcess = true := by decide +kernel
  have hrunning : started.runningState = .running := by decide +kernel
  have hcts : started.cts = some 0 := by decide +kernel
  refine ⟨hrunning, hcts, hproxy, ?_, hkill, fun h => hkill (h.proxy hproxy ?_)⟩
  · rw [stop_snd]
  · simp only [next, failingRm, calm]

end ContainerDesktop.Services
