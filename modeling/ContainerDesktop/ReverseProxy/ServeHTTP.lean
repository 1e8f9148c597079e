import ContainerDesktop.ReverseProxy.CopyResponse
import ContainerDesktop.ReverseProxy.Headers

/-!
# One request

`ServeHTTP` from the request of the client to its return or its panic, with
`handleUpgradeResponse` up to the copiers, over everything that the transport, the hook and
the connection of the client can do.  The hook may fail, panic, and put another body in the
place of the one that the backend has sent.  The error handler is the default one, which
answers 502.

`serve_answers` is about what the client is told: a status of the backend means that the
backend has answered with it, and an error means 502.  An answer that breaks off ends in a
panic, which the server turns into a broken connection.  The connection changes its
protocol only to the one that the client has asked for.  It also says which body is closed.
-/

namespace ContainerDesktop.ReverseProxy

open Rewrite (GoString)

/-- `http.Response`.  The keys of `announced` are the ones of `Trailer` before the body is
read, and `trailer` is what is in it after. -/
structure Response where
  statusCode : Int
  header : HeaderMap
  announced : HeaderMap
  trailer : HeaderMap
  /-- Which of all bodies it is. -/
  body : Nat
  /-- The body is an `io.ReadWriteCloser`. -/
  writableBody : Bool

/-- The status is not an informational one, but for `101 Switching Protocols`. -/
def Response.Final (res : Response) : Prop :=
  res.statusCode < 100 ∨ res.statusCode = 101 ∨ 199 < res.statusCode

inductive Panicked where
  /-- `http.ErrAbortHandler` -/
  | abortHandler
  | hook (value : GoString)
  /-- `WriteHeader` for a code that is none. -/
  | invalidStatus (code : Int)

/-- What a request meets. -/
structure World where
  /-- `httpguts.HeaderValuesContainsToken` -/
  containsToken : List GoString → GoString → Bool
  finds : FindsTokens containsToken
  /-- The order in which a loop meets the entries of a map. -/
  range : HeaderMap → List (Σ _ : GoString, Option (List GoString))
  range_perm : ∀ h, (range h).Perm h.entries
  roundTrip : HeaderMap → Except GoString Response
  /-- The transport keeps informational responses to itself. -/
  roundTrip_final : ∀ {out res}, roundTrip out = .ok res → res.Final
  /-- `ModifyResponse`, if there is one: its error, and the response as it leaves it. -/
  hook : Option (Response → Except GoString (Option GoString × Response))
  /-- It does not make the response an informational one. -/
  hook_final : ∀ {f res err res'}, hook = some f → res.Final → f res = .ok (err, res') → res'.Final
  /-- What `copyResponse` returns. -/
  copyResult : Option CopyError
  /-- There is a value for `http.ServerContextKey`. -/
  underServer : Bool
  isHijacker : Bool
  hijackError : Option GoString
  writeError : Option GoString
  flushError : Option GoString
  /-- What the copiers of the upgraded connection report. -/
  relayError : Option GoString

/-- The `ResponseWriter`, and what was done about the response. -/
structure Handling where
  header : HeaderMap
  /-- The status and the header that were written. -/
  answer : Option (Int × HeaderMap)
  hijacked : Bool
  /-- The header of the 101 that was written to the hijacked connection. -/
  switched : Option HeaderMap
  errors : List ProxyError
  /-- The bodies that are closed, or that a goroutine closes. -/
  closed : List Nat

namespace Handling

def fresh (header : HeaderMap) : Handling := ⟨header, none, false, none, [], []⟩

/-- `WriteHeader` for a code that is valid and final. -/
def answerWith (code : Int) (s : Handling) : Handling :=
  if s.hijacked = true ∨ s.answer ≠ none then s else { s with answer := some (code, s.header) }

/-- `rw.WriteHeader`.  It does nothing a second time, or on a hijacked connection. -/
def writeHeader (code : Int) (s : Handling) : Except Panicked Handling :=
  if s.hijacked = true ∨ s.answer ≠ none then .ok s
  else if code < 100 ∨ 999 < code then .error (.invalidStatus code)
  -- an informational response is written at once, and an answer can still follow
  else if code ≤ 199 ∧ code ≠ 101 then .ok s
  else .ok (s.answerWith code)

/-- `defaultErrorHandler` -/
def errored (e : ProxyError) (s : Handling) : Handling :=
  { s with errors := s.errors ++ [e] }.answerWith 502

/-- `Close` of a body. -/
def close (body : Nat) (s : Handling) : Handling := { s with closed := s.closed ++ [body] }

end Handling

section Serve

variable (w : World)

/-- What the hook returns, with the response as it leaves it. -/
def runHook (res : Response) : Except GoString (Option GoString × Response) :=
  match w.hook with
  | none => .ok (none, res)
  | some hook => hook res

/-- `modifyResponse` -/
def modifyResponse (res : Response) (s : Handling) : Except Panicked (Option Response) × Handling :=
  match runHook w res with
  | .error value => (.error (.hook value), s)
  | .ok (none, res) => (.ok (some res), s)
  | .ok (some text, res) => (.ok none, (s.close res.body).errored (.modifyResponse text))

/-- The end of `handleUpgradeResponse`, on the hijacked connection. -/
def handOver (s : Handling) : Handling :=
  match w.writeError with
  | some text => s.errored (.responseWrite text)
  | none =>
    match w.flushError with
    | some text => s.errored (.responseFlush text)
    | none =>
      let s := { s with switched := some s.header }
      match w.relayError with
      | some text => s.errored (.copy text)
      | none => s

/-- There is no return after the first error. -/
def handleUpgradeResponse (req : HeaderMap) (res : Response) (s : Handling) : Handling :=
  let reqUpType := upgradeType w.containsToken req
  let resUpType := upgradeType w.containsToken res.header
  let s := if isPrint resUpType = false then s.errored (.responseProtocol resUpType) else s
  if equalFold reqUpType resUpType = false then s.errored (.otherProtocol resUpType reqUpType)
  else if w.isHijacker = false then s.errored .notHijacker
  else if res.writableBody = false then s.errored .nonWritableBody
  else
    let s := s.close res.body
    match w.hijackError with
    | some text => s.errored (.hijack text)
    | none => handOver w { s with hijacked := true, header := s.header.addAll (w.range res.header) }

/-- The header of the answer, with the trailers that are known. -/
def announce (res : Response) (s : Handling) : Handling :=
  let s := { s with header := s.header.addAll (w.range res.header) }
  let trailerKeys := (w.range res.announced).map Sigma.fst
  if trailerKeys.length > 0 then
    { s with header := s.header.add "Trailer".toList (joinComma trailerKeys) }
  else s

/-- `http.TrailerPrefix` -/
def trailerPrefix : GoString := "Trailer:".toList

/-- The trailers after the body. -/
def addTrailers (res : Response) (header : HeaderMap) : HeaderMap :=
  if res.trailer.entries.length = res.announced.entries.length then
    header.addAll (w.range res.trailer)
  else header.addAll ((w.range res.trailer).map fun e => ⟨trailerPrefix ++ e.1, e.2⟩)

/-- `ServeHTTP` after a response that changes no protocol, and the hook. -/
def respond (res : Response) (s : Handling) : Except Panicked Unit × Handling :=
  let s := announce w res s
  match s.writeHeader res.statusCode with
  | .error p => (.error p, s)
  | .ok s =>
    let s := s.close res.body
    match w.copyResult with
    | some _ => (if w.underServer then .error .abortHandler else .ok (), s)
    | none => (.ok (), { s with header := addTrailers w res s.header })

def strip (res : Response) : Response :=
  { res with header := (removeConnectionHeaders res.header).deleteAll hopHeaders }

def serveHTTP (client : HeaderMap) (remoteAddr : GoString) (s : Handling) :
    Except Panicked Unit × Handling :=
  match outgoingHeader w.containsToken client remoteAddr with
  | .error e => (.ok (), s.errored e)
  | .ok out =>
    match w.roundTrip out with
    | .error text => (.ok (), s.errored (.roundTrip text))
    | .ok res =>
      if res.statusCode = 101 then
        match modifyResponse w res s with
        | (.error p, s) => (.error p, s)
        | (.ok none, s) => (.ok (), s)
        | (.ok (some res), s) => (.ok (), handleUpgradeResponse w out res s)
      else
        match modifyResponse w (strip res) s with
        | (.error p, s) => (.error p, s)
        | (.ok none, s) => (.ok (), s)
        | (.ok (some res), s) => respond w res s

end Serve

/-! ## What the client is told -/

/-- The transport was given the request, and the backend has answered. -/
def Received (w : World) (client : HeaderMap) (remoteAddr : GoString) (res : Response) : Prop :=
  ∃ out, outgoingHeader w.containsToken client remoteAddr = .ok out ∧ w.roundTrip out = .ok res

/-- What the hook makes of a response. -/
def Hooked (w : World) (res res' : Response) : Prop := runHook w res = .ok (none, res')

/-- The response that the hook is given. -/
def hookArgument (res : Response) : Response := if res.statusCode = 101 then res else strip res

/-- The protocol is not changed, and nobody has the body of the response. -/
def ProxyError.Refuses : ProxyError → Prop
  | otherProtocol _ _ | notHijacker | nonWritableBody => True
  | _ => False

/-- How a request ends. -/
inductive Ending (w : World) (client : HeaderMap) (remoteAddr : GoString) (header : HeaderMap) :
    Except Panicked Unit → Handling → Prop
  /-- 502 -/
  | failed {s : Handling} : s.errors ≠ [] → s.answer = some (502, header) → s.hijacked = false →
      Ending w client remoteAddr header (.ok ()) s
  /-- The answer of the backend, which is broken off by a panic when its body is. -/
  | passedOn {o : Except Panicked Unit} {s : Handling} {res res' : Response} : s.errors = [] →
      Received w client remoteAddr res → Hooked w (strip res) res' →
      s.answer = some (res'.statusCode, (announce w res' (.fresh header)).header) →
      s.hijacked = false → (o = .ok () ∨ o = .error .abortHandler) →
      (o ≠ .ok () ↔ w.underServer = true ∧ w.copyResult ≠ none) →
      Ending w client remoteAddr header o s
  /-- The protocol that the client has asked for. -/
  | switched {s : Handling} {res res' : Response} : Received w client remoteAddr res →
      Hooked w res res' → res.statusCode = 101 →
      equalFold (upgradeType w.containsToken client)
        (upgradeType w.containsToken res'.header) = true →
      isPrint (upgradeType w.containsToken res'.header) = true → s.answer = none →
      s.hijacked = true → Ending w client remoteAddr header (.ok ()) s
  /-- The hook has panicked, before anything was written. -/
  | hookPanicked {res : Response} {value : GoString} : Received w client remoteAddr res →
      runHook w (hookArgument res) = .error value →
      Ending w client remoteAddr header (.error (.hook value)) (.fresh header)
  /-- The status is none, and nothing is written. -/
  | invalidStatus {s : Handling} {res res' : Response} : Received w client remoteAddr res →
      Hooked w (strip res) res' → res'.statusCode < 100 ∨ 999 < res'.statusCode →
      s.errors = [] → s.answer = none → s.hijacked = false →
      Ending w client remoteAddr header (.error (.invalidStatus res'.statusCode)) s

/-- Nobody closes the body of the response: the change of the protocol was refused, or there was a
panic before it was copied. -/
def LeavesOpen (o : Except Panicked Unit) (s : Handling) : Prop :=
  (∃ e ∈ s.errors, e.Refuses) ∨ (∃ value, o = .error (.hook value)) ∨
    ∃ code, o = .error (.invalidStatus code)

/-- Which bodies are closed. -/
structure Closes (w : World) (client : HeaderMap) (remoteAddr : GoString)
    (o : Except Panicked Unit) (s : Handling) : Prop where
  unreceived : (¬ ∃ res, Received w client remoteAddr res) → s.closed = []
  leftOpen : LeavesOpen o s → s.closed = []
  /-- The one that the hook leaves in the response, which may be another than the backend's. -/
  closed : ∀ res err res', Received w client remoteAddr res →
    runHook w (hookArgument res) = .ok (err, res') → ¬ LeavesOpen o s → s.closed = [res'.body]

section Text

theorem printable_toLower (c : Char) :
    (' ' ≤ c.toLower && c.toLower ≤ '~') = (' ' ≤ c && c ≤ '~') := by
  by_cases hc : c.isUpper = true
  · have hrange := HeaderMap.isUpper_iff.mp hc
    have hlower := HeaderMap.isLower_iff.mp (HeaderMap.isLower_toLower hc)
    have hle : ∀ d : Char, 65 ≤ d.toNat ∧ d.toNat ≤ 122 → (' ' ≤ d && d ≤ '~') = true := by
      intro d hd
      rw [Bool.and_eq_true, decide_eq_true_iff, decide_eq_true_iff]
      exact ⟨show 32 ≤ d.toNat by omega, show d.toNat ≤ 126 by omega⟩
    rw [hle c (by omega), hle c.toLower (by omega)]
  · rw [HeaderMap.toLower_of_not_isUpper hc]

theorem isPrint_map_toLower (s : GoString) : isPrint (s.map Char.toLower) = isPrint s := by
  induction s with
  | nil => rfl
  | cons c s ih =>
    show ((' ' ≤ c.toLower && c.toLower ≤ '~') && isPrint (s.map Char.toLower)) = _
    rw [printable_toLower, ih]
    rfl

/-- The comparison does the work of the missing return. -/
theorem isPrint_of_equalFold {s t : GoString} (h : equalFold s t = true) (hs : isPrint s = true) :
    isPrint t = true := by
  have hmap : s.map Char.toLower = t.map Char.toLower := beq_iff_eq.mp h
  rw [← isPrint_map_toLower, ← hmap, isPrint_map_toLower]
  exact hs

end Text

/-! ## Where `ServeHTTP` can end -/

section Ends

variable {w : World} {client header : HeaderMap} {remoteAddr : GoString} {res res' : Response}

theorem errored_hijacked {s : Handling} {e : ProxyError} (h : s.hijacked = true) :
    s.errored e = { s with errors := s.errors ++ [e] } := if_pos (Or.inl h)

/-- On a hijacked connection errors are only logged. -/
theorem handOver_hijacked {s : Handling} (h : s.hijacked = true) : ∃ errors switched,
    handOver w s = { s with errors := s.errors ++ errors, switched := switched } ∧
      ∀ e ∈ errors, ¬ e.Refuses := by
  rw [handOver]
  cases w.writeError with
  | some text =>
    refine ⟨[.responseWrite text], s.switched, errored_hijacked h, fun e he => ?_⟩
    rw [List.mem_singleton.mp he]
    exact id
  | none =>
    cases w.flushError with
    | some text =>
      refine ⟨[.responseFlush text], s.switched, errored_hijacked h, fun e he => ?_⟩
      rw [List.mem_singleton.mp he]
      exact id
    | none =>
      cases w.relayError with
      | some text =>
        refine ⟨[.copy text], some s.header, errored_hijacked h, fun e he => ?_⟩
        rw [List.mem_singleton.mp he]
        exact id
      | none =>
        refine ⟨[], some s.header, ?_, fun e he => absurd he List.not_mem_nil⟩
        show { s with switched := some s.header } = _
        rw [List.append_nil]

theorem Received.unique {res₁ res₂ : Response} (h₁ : Received w client remoteAddr res₁)
    (h₂ : Received w client remoteAddr res₂) : res₂ = res₁ := by
  obtain ⟨out₁, hout₁, hres₁⟩ := h₁
  obtain ⟨out₂, hout₂, hres₂⟩ := h₂
  cases hout₁.symm.trans hout₂
  exact Except.ok.inj (hres₂.symm.trans hres₁)

theorem Received.final (h : Received w client remoteAddr res) : res.Final := by
  obtain ⟨out, -, hres⟩ := h
  exact w.roundTrip_final hres

theorem final_runHook {err : Option GoString} (h : res.Final)
    (hrun : runHook w res = .ok (err, res')) : res'.Final := by
  rw [runHook] at hrun
  cases hhook : w.hook with
  | none =>
    rw [hhook] at hrun
    obtain ⟨-, rfl⟩ := Prod.mk.inj (Except.ok.inj hrun)
    exact h
  | some f =>
    rw [hhook] at hrun
    exact w.hook_final hhook h hrun

/-! ### The bodies -/

/-- The response that was received has been through the hook, which has left `body`. -/
theorem Closes.of_hook {o : Except Panicked Unit} {s : Handling} {err : Option GoString}
    (hres : Received w client remoteAddr res)
    (hhook : runHook w (hookArgument res) = .ok (err, res'))
    (hleft : LeavesOpen o s → s.closed = []) (hclosed : ¬ LeavesOpen o s → s.closed = [res'.body]) :
    Closes w client remoteAddr o s where
  unreceived := fun h => absurd ⟨res, hres⟩ h
  leftOpen := hleft
  closed := by
    intro res₁ err₁ res₁' hres₁ hhook₁ hnot
    obtain rfl := hres.unique hres₁
    obtain ⟨-, rfl⟩ := Prod.mk.inj (Except.ok.inj (hhook₁.symm.trans hhook))
    exact hclosed hnot

/-- No response was received, and so none is closed. -/
theorem Closes.of_not_received {o : Except Panicked Unit} {s : Handling} (hs : s.closed = [])
    (h : ∀ res, ¬ Received w client remoteAddr res) : Closes w client remoteAddr o s :=
  ⟨fun _ => hs, fun _ => hs, fun res _ _ hres => absurd hres (h res)⟩

theorem not_leavesOpen {s : Handling} (h : ∀ e ∈ s.errors, ¬ e.Refuses) :
    ¬ LeavesOpen (.ok ()) s := by
  rintro (⟨e, he, hrefuses⟩ | ⟨value, ho⟩ | ⟨code, ho⟩)
  · exact h e he hrefuses
  · exact nomatch ho
  · exact nomatch ho

/-! ### The answers -/

/-- What is to be said of the end of a request. -/
def Serves (w : World) (client : HeaderMap) (remoteAddr : GoString) (header : HeaderMap)
    (o : Except Panicked Unit) (s : Handling) : Prop :=
  Ending w client remoteAddr header o s ∧ Closes w client remoteAddr o s

/-- No response is received, and the client is told so. -/
theorem serves_unreceived {e : ProxyError} (h : ∀ res, ¬ Received w client remoteAddr res) :
    Serves w client remoteAddr header (.ok ()) ((Handling.fresh header).errored e) :=
  ⟨.failed (List.cons_ne_nil _ _) rfl rfl, .of_not_received rfl h⟩

theorem serves_hookFailed {text : GoString} (hres : Received w client remoteAddr res)
    (hhook : runHook w (hookArgument res) = .ok (some text, res')) :
    Serves w client remoteAddr header (.ok ())
      (((Handling.fresh header).close res'.body).errored (.modifyResponse text)) := by
  have hnot : ¬ LeavesOpen (.ok ())
      (((Handling.fresh header).close res'.body).errored (.modifyResponse text)) := by
    refine not_leavesOpen fun e he => ?_
    rw [List.mem_singleton.mp he]
    exact id
  exact ⟨.failed (List.cons_ne_nil _ _) rfl rfl,
    .of_hook hres hhook (fun h => absurd h hnot) fun _ => rfl⟩

theorem serves_hookPanicked {value : GoString} (hres : Received w client remoteAddr res)
    (hhook : runHook w (hookArgument res) = .error value) :
    Serves w client remoteAddr header (.error (.hook value)) (.fresh header) := by
  refine ⟨.hookPanicked hres hhook, fun _ => rfl, fun _ => rfl,
    fun res₁ err res₁' hres₁ hhook₁ => ?_⟩
  obtain rfl := hres.unique hres₁
  exact nomatch hhook₁.symm.trans hhook

/-- The answer, when it is not an informational one. -/
theorem writeHeader_final {s : Handling} (hfinal : res.Final) (hhijacked : s.hijacked = false)
    (hanswer : s.answer = none) :
    s.writeHeader res.statusCode = (if res.statusCode < 100 ∨ 999 < res.statusCode
      then .error (.invalidStatus res.statusCode)
      else .ok { s with answer := some (res.statusCode, s.header) }) := by
  have hfirst : ¬ (s.hijacked = true ∨ s.answer ≠ none) := by
    rw [hhijacked, hanswer]
    simp
  rw [Handling.writeHeader, if_neg hfirst]
  by_cases hcode : res.statusCode < 100 ∨ 999 < res.statusCode
  · rw [if_pos hcode, if_pos hcode]
  · have hnot : ¬ (res.statusCode ≤ 199 ∧ res.statusCode ≠ 101) := by
      unfold Response.Final at hfinal
      omega
    rw [if_neg hcode, if_neg hcode, if_neg hnot, Handling.answerWith, if_neg hfirst]

theorem announce_fresh (w : World) (header : HeaderMap) (res : Response) :
    announce w res (.fresh header)
      = ⟨(announce w res (.fresh header)).header, none, false, none, [], []⟩ := by
  rw [announce]
  split <;> rfl

theorem serves_respond (hres : Received w client remoteAddr res) (hstatus : res.statusCode ≠ 101)
    (hhook : Hooked w (strip res) res') :
    Serves w client remoteAddr header (respond w res' (.fresh header)).1
      (respond w res' (.fresh header)).2 := by
  have hargument : runHook w (hookArgument res) = .ok (none, res') := by
    rw [hookArgument, if_neg hstatus]
    exact hhook
  have hfinal : res'.Final := final_runHook (show (strip res).Final from hres.final) hhook
  rw [respond, announce_fresh]
  simp only [writeHeader_final (s := ⟨_, none, false, none, [], []⟩) hfinal rfl rfl]
  by_cases hcode : res'.statusCode < 100 ∨ 999 < res'.statusCode
  · rw [if_pos hcode]
    exact ⟨.invalidStatus hres hhook hcode rfl rfl rfl,
      .of_hook hres hargument (fun _ => rfl) fun h => absurd (.inr (.inr ⟨_, rfl⟩)) h⟩
  · rw [if_neg hcode]
    cases hcopy : w.copyResult with
    | none =>
      refine ⟨.passedOn rfl hres hhook rfl rfl (.inl rfl) (iff_of_false (fun h => h rfl) ?_),
        .of_hook hres hargument (fun h => absurd h ?_) fun _ => rfl⟩
      · exact fun h => h.2 hcopy
      · exact not_leavesOpen fun e he => absurd he List.not_mem_nil
    | some err =>
      have hbroken : w.copyResult ≠ none := fun h => nomatch hcopy.symm.trans h
      cases hserver : w.underServer with
      | true =>
        refine ⟨.passedOn rfl hres hhook rfl rfl (.inr rfl)
            (iff_of_true (fun h => nomatch h) ⟨hserver, hbroken⟩),
          .of_hook hres hargument (fun h => absurd h ?_) fun _ => rfl⟩
        rintro (⟨e, he, -⟩ | ⟨value, ho⟩ | ⟨code, ho⟩)
        · exact absurd he List.not_mem_nil
        · exact nomatch ho
        · exact nomatch ho
      | false =>
        refine ⟨.passedOn rfl hres hhook rfl rfl (.inl rfl) (iff_of_false (fun h => h rfl) ?_),
          .of_hook hres hargument (fun h => absurd h ?_) fun _ => rfl⟩
        · exact fun h => nomatch hserver.symm.trans h.1
        · exact not_leavesOpen fun e he => absurd he List.not_mem_nil

/-- A refusal, after the complaint about a protocol that cannot be printed. -/
theorem serves_refused {e : ProxyError} (he : e.Refuses) {u : GoString}
    (hres : Received w client remoteAddr res) {err : Option GoString}
    (hhook : runHook w (hookArgument res) = .ok (err, res')) :
    Serves w client remoteAddr header (.ok ()) ((if isPrint u = false
      then (Handling.fresh header).errored (.responseProtocol u)
      else .fresh header).errored e) := by
  by_cases hprinted : isPrint u = false
  · rw [if_pos hprinted]
    refine ⟨.failed (List.cons_ne_nil _ _) rfl rfl,
      .of_hook hres hhook (fun _ => rfl) fun h => absurd (.inl ⟨e, ?_, he⟩) h⟩
    exact List.mem_cons_of_mem _ (List.mem_singleton_self e)
  · rw [if_neg hprinted]
    exact ⟨.failed (List.cons_ne_nil _ _) rfl rfl,
      .of_hook hres hhook (fun _ => rfl) fun h =>
        absurd (.inl ⟨e, List.mem_singleton_self e, he⟩) h⟩

theorem serves_upgrade (hres : Received w client remoteAddr res) (hstatus : res.statusCode = 101)
    (hhook : Hooked w res res') {out : HeaderMap}
    (hout : outgoingHeader w.containsToken client remoteAddr = .ok out) :
    Serves w client remoteAddr header (.ok ())
      (handleUpgradeResponse w out res' (.fresh header)) := by
  have hargument : runHook w (hookArgument res) = .ok (none, res') := by
    rw [hookArgument, if_pos hstatus]
    exact hhook
  have hrequests := outgoing_requests hout
  rw [handleUpgradeResponse, hrequests.upgradeType w.finds]
  by_cases hfold : equalFold (upgradeType w.containsToken client)
      (upgradeType w.containsToken res'.header) = false
  · rw [if_pos hfold]
    exact serves_refused (e := .otherProtocol _ _) trivial hres hargument
  rw [if_neg hfold]
  by_cases hhijacker : w.isHijacker = false
  · rw [if_pos hhijacker]
    exact serves_refused (e := .notHijacker) trivial hres hargument
  rw [if_neg hhijacker]
  by_cases hbody : res'.writableBody = false
  · rw [if_pos hbody]
    exact serves_refused (e := .nonWritableBody) trivial hres hargument
  have hfold := Bool.of_not_eq_false hfold
  have hprinted := isPrint_of_equalFold hfold hrequests.printable
  have hnot : ¬ isPrint (upgradeType w.containsToken res'.header) = false := by
    rw [hprinted]
    exact Bool.noConfusion
  rw [if_neg hbody, if_neg hnot]
  cases hhijack : w.hijackError with
  | some text =>
    refine ⟨.failed (List.cons_ne_nil _ _) rfl rfl,
      .of_hook hres hargument (fun h => absurd h (not_leavesOpen fun e he => ?_)) fun _ => rfl⟩
    rw [List.mem_singleton.mp he]
    exact id
  | none =>
    obtain ⟨errors, switched, heq, hrefuses⟩ := handOver_hijacked (w := w)
      (s := ⟨header.addAll (w.range res'.header), none, true, none, [], [res'.body]⟩) rfl
    show Serves w client remoteAddr header (.ok ())
      (handOver w ⟨header.addAll (w.range res'.header), none, true, none, [], [res'.body]⟩)
    rw [heq]
    exact ⟨.switched hres hhook hstatus hfold hprinted rfl rfl,
      .of_hook hres hargument (fun h => absurd h (not_leavesOpen hrefuses)) fun _ => rfl⟩

theorem serveHTTP_serves (w : World) (client : HeaderMap) (remoteAddr : GoString)
    (header : HeaderMap) :
    Serves w client remoteAddr header (serveHTTP w client remoteAddr (.fresh header)).1
      (serveHTTP w client remoteAddr (.fresh header)).2 := by
  rw [serveHTTP]
  cases hout : outgoingHeader w.containsToken client remoteAddr with
  | error e =>
    refine serves_unreceived (e := e) fun res hres => ?_
    obtain ⟨out, hout', -⟩ := hres
    exact nomatch hout.symm.trans hout'
  | ok out =>
    simp only
    cases hres : w.roundTrip out with
    | error text =>
      refine serves_unreceived (e := .roundTrip text) fun res hres' => ?_
      obtain ⟨out', hout', hres'⟩ := hres'
      cases hout.symm.trans hout'
      exact nomatch hres.symm.trans hres'
    | ok res =>
      have hreceived : Received w client remoteAddr res := ⟨out, hout, hres⟩
      simp only
      by_cases hstatus : res.statusCode = 101
      · have hrun : runHook w (hookArgument res) = runHook w res :=
          congrArg (runHook w) (if_pos hstatus)
        rw [if_pos hstatus, modifyResponse]
        cases hhook : runHook w res with
        | error value => exact serves_hookPanicked hreceived (hrun.trans hhook)
        | ok left =>
          obtain ⟨err, res'⟩ := left
          cases err with
          | none => exact serves_upgrade hreceived hstatus hhook hout
          | some text => exact serves_hookFailed hreceived (hrun.trans hhook)
      · have hrun : runHook w (hookArgument res) = runHook w (strip res) :=
          congrArg (runHook w) (if_neg hstatus)
        rw [if_neg hstatus, modifyResponse]
        cases hhook : runHook w (strip res) with
        | error value => exact serves_hookPanicked hreceived (hrun.trans hhook)
        | ok left =>
          obtain ⟨err, res'⟩ := left
          cases err with
          | none => exact serves_respond hreceived hstatus hhook
          | some text => exact serves_hookFailed hreceived (hrun.trans hhook)

end Ends

end ContainerDesktop.ReverseProxy
