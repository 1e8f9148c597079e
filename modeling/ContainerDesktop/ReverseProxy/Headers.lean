import ContainerDesktop.HeaderMap
import ContainerDesktop.Rewrite.MapPath
import Mathlib.Data.List.DropRight

/-!
# The header of a request

What `ServeHTTP` makes of the header of the client before it hands the request to the
transport.  The headers of the single connection go: the ones of `hopHeaders` and the ones
that `Connection` names.  Of these only a switch of the protocol and the client's wish for
trailers are passed on, in a spelling of the proxy.  `forwards` says this for every key.

Proxies in a row do it again and again.  `chain_forwards` says that only the first one
matters, but for `X-Forwarded-For`, which gets the address of each client that has one.

`HeaderValuesContainsToken` is from another module.
-/

namespace ContainerDesktop.ReverseProxy

open Rewrite (GoString)

/-! ## Text -/

/-- `IsPrint` -/
def isPrint (s : GoString) : Bool := s.all fun c => ' ' ≤ c && c ≤ '~'

/-- `EqualFold` -/
def equalFold (s t : GoString) : Bool := s.map Char.toLower == t.map Char.toLower

/-- The space of `textproto.TrimString`. -/
def isASCIISpace (c : Char) : Bool := c == ' ' || c == '\t' || c == '\n' || c == '\r'

/-- `textproto.TrimString` -/
def trimString (s : GoString) : GoString := (s.dropWhile isASCIISpace).rdropWhile isASCIISpace

/-- `strings.Join(parts, ", ")` -/
def joinComma (parts : List GoString) : GoString := ", ".toList.intercalate parts

/-- `net.SplitHostPort`.  The port is behind the last colon, and a host with a colon in it is in
brackets. -/
def splitHostPort (hostport : GoString) : Option (GoString × GoString) :=
  if ':' ∈ hostport then
    let port := hostport.rtakeWhile (· ≠ ':')
    match (hostport.rdropWhile (· ≠ ':')).dropLast with
    | '[' :: rest =>
      let host := rest.takeWhile (· ≠ ']')
      if rest = host ++ [']'] ∧ '[' ∉ host ++ port ∧ ']' ∉ port then some (host, port) else none
    | host => if ':' ∉ host ∧ '[' ∉ hostport ∧ ']' ∉ hostport then some (host, port) else none
  else none

/-! ## Keys -/

def connection : GoString := "Connection".toList
def upgrade : GoString := "Upgrade".toList
def te : GoString := "Te".toList
def trailers : GoString := "trailers".toList
def userAgent : GoString := "User-Agent".toList
def xForwardedFor : GoString := "X-Forwarded-For".toList

def hopHeaders : List GoString :=
  [connection, "Proxy-Connection".toList, "Keep-Alive".toList, "Proxy-Authenticate".toList,
    "Proxy-Authorization".toList, te, "Trailer".toList, "Transfer-Encoding".toList, upgrade]

/-- What the error handler is called with. -/
inductive ProxyError where
  /-- `client tried to switch to invalid protocol %q` -/
  | requestProtocol (upType : GoString)
  /-- The error of the transport. -/
  | roundTrip (text : GoString)
  /-- The one of `ModifyResponse`. -/
  | modifyResponse (text : GoString)
  /-- `backend tried to switch to invalid protocol %q` -/
  | responseProtocol (upType : GoString)
  /-- `backend tried to switch protocol %q when %q was requested` -/
  | otherProtocol (resUpType reqUpType : GoString)
  /-- `can't switch protocols using non-Hijacker ResponseWriter type %T` -/
  | notHijacker
  /-- `internal error: 101 switching protocols response with non-writable body` -/
  | nonWritableBody
  /-- `hijack failed on protocol switch: %v` -/
  | hijack (text : GoString)
  /-- `response write: %v` -/
  | responseWrite (text : GoString)
  /-- `response flush: %v` -/
  | responseFlush (text : GoString)
  /-- `can't copy: %v` -/
  | copy (text : GoString)
  deriving DecidableEq

/-! ## The request -/

section Request

variable (containsToken : List GoString → GoString → Bool)

def upgradeType (h : HeaderMap) : GoString :=
  if containsToken (h.values connection) upgrade then h.get upgrade else []

def removeConnectionHeaders (h : HeaderMap) : HeaderMap :=
  (h.values connection).foldl (fun h f => (f.splitOn ',').foldl (fun h sf =>
    if trimString sf ≠ [] then h.del (trimString sf) else h) h) h

/-- The director of the single host proxy, for the header. -/
def directorHeader (h : HeaderMap) : HeaderMap := if userAgent ∈ h then h else h.set userAgent []

/-- Folds the address of the client into `X-Forwarded-For`, unless that is nil. -/
def setForwardedFor (remoteAddr : GoString) (h : HeaderMap) : HeaderMap :=
  match splitHostPort remoteAddr with
  | none => h
  | some (clientIP, _) =>
    let prior := h.values xForwardedFor
    let clientIP := if prior.length > 0
      then joinComma prior ++ ", ".toList ++ clientIP else clientIP
    if h.lookup xForwardedFor = some none then h else h.set xForwardedFor clientIP

/-- `ServeHTTP` up to the round trip. -/
def outgoingHeader (header : HeaderMap) (remoteAddr : GoString) : Except ProxyError HeaderMap :=
  let out := directorHeader header
  let reqUpType := upgradeType containsToken out
  if isPrint reqUpType = false then .error (.requestProtocol reqUpType)
  else
    let out := (removeConnectionHeaders out).deleteAll hopHeaders
    let out := if containsToken (header.values te) trailers then out.set te trailers else out
    let out := if reqUpType ≠ [] then (out.set connection upgrade).set upgrade reqUpType else out
    .ok (setForwardedFor remoteAddr out)

end Request

/-! ## Keys are canonical -/

section Keys

theorem hopHeaders_canonical : hopHeaders.map HeaderMap.canonicalKey = hopHeaders := by decide

theorem canonicalKey_hop {k : GoString} (hk : k ∈ hopHeaders) : HeaderMap.canonicalKey k = k :=
  List.map_inj_left.mp (hopHeaders_canonical.trans (List.map_id _).symm) k hk

theorem connection_mem : connection ∈ hopHeaders := by decide

theorem upgrade_mem : upgrade ∈ hopHeaders := by decide

theorem te_mem : te ∈ hopHeaders := by decide

@[simp] theorem canonicalKey_userAgent : HeaderMap.canonicalKey userAgent = userAgent := by decide

@[simp] theorem canonicalKey_xForwardedFor :
    HeaderMap.canonicalKey xForwardedFor = xForwardedFor := by decide

theorem userAgent_notMem : userAgent ∉ hopHeaders := by decide

theorem xForwardedFor_notMem : xForwardedFor ∉ hopHeaders := by decide

theorem ne_of_hop {j k : GoString} (hj : j ∈ hopHeaders) (hk : k ∉ hopHeaders) : k ≠ j :=
  fun h => hk (h ▸ hj)

end Keys

/-! ## What is taken away -/

/-- The elements of lists with commas. -/
def headerElements (values : List GoString) : List GoString :=
  ((values.flatMap (·.splitOn ',')).map trimString).filter (· ≠ [])

/-- The fields of `Connection`. -/
def connectionFields (h : HeaderMap) : List GoString := headerElements (h.values connection)

/-- The keys that `Connection` names. -/
def nominated (h : HeaderMap) : List GoString := (connectionFields h).map HeaderMap.canonicalKey

section Stripping

theorem removeConnectionHeaders_eq (h : HeaderMap) :
    removeConnectionHeaders h = h.deleteAll (connectionFields h) := by
  simp only [removeConnectionHeaders, HeaderMap.deleteAll, connectionFields, headerElements,
    List.foldl_filter, List.foldl_map, List.foldl_flatMap, decide_eq_true_eq]

theorem lookup_stripped (h : HeaderMap) (k : GoString) :
    ((removeConnectionHeaders h).deleteAll hopHeaders).lookup k
      = if k ∈ hopHeaders ∨ k ∈ nominated h then none else h.lookup k := by
  rw [removeConnectionHeaders_eq, HeaderMap.lookup_deleteAll, HeaderMap.lookup_deleteAll,
    hopHeaders_canonical, ← nominated]
  by_cases hhop : k ∈ hopHeaders
  · rw [if_pos hhop, if_pos (Or.inl hhop)]
  · rw [if_neg hhop]
    by_cases hnom : k ∈ nominated h
    · rw [if_pos hnom, if_pos (Or.inr hnom)]
    · rw [if_neg hnom, if_neg (not_or.mpr ⟨hhop, hnom⟩)]

end Stripping

/-! ## The steps of `ServeHTTP` -/

/-- The address that a proxy adds for its client. -/
def clientIP (remoteAddr : GoString) : Option GoString := (splitHostPort remoteAddr).map Prod.fst

/-- `X-Forwarded-For` after addresses were added one by one. -/
def appended (prior : Option (Option (List GoString))) (ips : List GoString) :
    Option (Option (List GoString)) :=
  if prior = some none ∨ ips = [] then prior
    else some (some [joinComma ((prior.getD none).getD [] ++ ips)])

section Steps

theorem joinComma_singleton (s : GoString) : joinComma [s] = s := List.intercalate_singleton

theorem joinComma_append {a b : List GoString} (ha : a ≠ []) (hb : b ≠ []) :
    joinComma (a ++ b) = joinComma a ++ ", ".toList ++ joinComma b := by
  induction a with
  | nil => exact absurd rfl ha
  | cons x a ih =>
    have hcons : ∀ ys : List GoString, ys ≠ [] →
        joinComma (x :: ys) = x ++ ", ".toList ++ joinComma ys :=
      fun ys hys => List.intercalate_cons_of_ne_nil hys
    cases a with
    | nil =>
      rw [joinComma_singleton]
      exact hcons b hb
    | cons y a =>
      have htail : joinComma (y :: a ++ b) = joinComma (y :: a) ++ ", ".toList ++ joinComma b :=
        ih (List.cons_ne_nil _ _)
      have hhead := hcons (y :: a) (List.cons_ne_nil _ _)
      have hall := hcons (y :: a ++ b) (List.cons_ne_nil _ _)
      rw [List.cons_append, hall, htail, hhead]
      simp only [List.append_assoc]

theorem appended_nil (prior : Option (Option (List GoString))) : appended prior [] = prior :=
  if_pos (Or.inr rfl)

theorem appended_of_ne_nil {prior : Option (Option (List GoString))} {ips : List GoString}
    (hprior : prior ≠ some none) (hips : ips ≠ []) :
    appended prior ips = some (some [joinComma ((prior.getD none).getD [] ++ ips)]) :=
  if_neg (not_or.mpr ⟨hprior, hips⟩)

/-- Folding twice is folding once. -/
theorem appended_appended (prior : Option (Option (List GoString))) (a b : List GoString) :
    appended (appended prior a) b = appended prior (a ++ b) := by
  by_cases hprior : prior = some none
  · simp [appended, hprior]
  · by_cases ha : a = []
    · rw [ha, appended_nil, List.nil_append]
    · by_cases hb : b = []
      · rw [hb, appended_nil, List.append_nil]
      · have hab : a ++ b ≠ [] := List.append_ne_nil_of_left_ne_nil ha b
        have hfirst : (prior.getD none).getD [] ++ a ≠ [] := List.append_ne_nil_of_right_ne_nil _ ha
        rw [appended_of_ne_nil hprior ha, appended_of_ne_nil (by simp) hb,
          appended_of_ne_nil hprior hab]
        show some (some [joinComma ([joinComma _] ++ b)]) = _
        rw [joinComma_append (List.cons_ne_nil _ _) hb, joinComma_singleton, ← List.append_assoc,
          joinComma_append hfirst hb]

theorem lookup_directorHeader {h : HeaderMap} {k : GoString} (hk : k = userAgent → k ∈ h) :
    (directorHeader h).lookup k = h.lookup k := by
  rw [directorHeader]
  split
  · rfl
  · rename_i hua
    have hne : k ≠ userAgent := fun he => hua (he ▸ hk he)
    rw [HeaderMap.lookup_set, canonicalKey_userAgent, if_neg hne]

theorem lookup_directorHeader_hop (h : HeaderMap) {k : GoString} (hk : k ∈ hopHeaders) :
    (directorHeader h).lookup k = h.lookup k := by
  apply lookup_directorHeader
  intro he
  exact absurd (he ▸ hk) userAgent_notMem

theorem get_of_hop (h : HeaderMap) {k : GoString} (hk : k ∈ hopHeaders) :
    h.get k = (h.values k).headD [] := by
  rw [HeaderMap.get, canonicalKey_hop hk]

theorem upgradeType_congr (containsToken : List GoString → GoString → Bool) {h h' : HeaderMap}
    (hconn : h'.lookup connection = h.lookup connection)
    (hup : h'.lookup upgrade = h.lookup upgrade) :
    upgradeType containsToken h' = upgradeType containsToken h := by
  rw [upgradeType, upgradeType, get_of_hop _ upgrade_mem, get_of_hop _ upgrade_mem,
    HeaderMap.values_of_lookup hconn, HeaderMap.values_of_lookup hup]

theorem nominated_congr {h h' : HeaderMap} (hconn : h'.lookup connection = h.lookup connection) :
    nominated h' = nominated h := by
  rw [nominated, nominated, connectionFields, connectionFields, HeaderMap.values_of_lookup hconn]

theorem lookup_setForwardedFor_ne (remoteAddr : GoString) (h : HeaderMap) {k : GoString}
    (hk : k ≠ xForwardedFor) : (setForwardedFor remoteAddr h).lookup k = h.lookup k := by
  rw [setForwardedFor]
  split
  · rfl
  · split
    · rfl
    · rw [HeaderMap.lookup_set, canonicalKey_xForwardedFor, if_neg hk]

theorem lookup_setForwardedFor (remoteAddr : GoString) (h : HeaderMap) :
    (setForwardedFor remoteAddr h).lookup xForwardedFor
      = appended (h.lookup xForwardedFor) (clientIP remoteAddr).toList := by
  rw [setForwardedFor, clientIP]
  cases splitHostPort remoteAddr with
  | none => exact (appended_nil _).symm
  | some hostport =>
    obtain ⟨ip, port⟩ := hostport
    by_cases hnil : h.lookup xForwardedFor = some none
    · simp [hnil, appended]
    · have hset : (h.lookup xForwardedFor = some none) = False := eq_false hnil
      simp only [hset, if_false, HeaderMap.lookup_set, canonicalKey_xForwardedFor, if_true]
      rw [Option.map_some, Option.toList_some, appended_of_ne_nil hnil (List.cons_ne_nil _ _)]
      show some (some [if (h.values xForwardedFor).length > 0 then _ else ip])
        = some (some [joinComma (h.values xForwardedFor ++ [ip])])
      split
      · rename_i hlen
        rw [joinComma_append (List.length_pos_iff.mp hlen) (List.cons_ne_nil _ _),
          joinComma_singleton]
      · rename_i hlen
        have hempty : h.values xForwardedFor = [] := List.length_eq_zero_iff.mp (by omega)
        rw [hempty, List.nil_append, joinComma_singleton]

end Steps

/-! ## What the backend gets -/

/-- What `Connection` leaves of a key. -/
def unnamed (client : HeaderMap) (k : GoString) : Option (Option (List GoString)) :=
  if k ∈ nominated client then none else client.lookup k

/-- A request for the protocol `upType`, or for none. -/
structure Requests (backend : HeaderMap) (upType : GoString)
    (wantsTrailers : Bool) : Prop where
  printable : isPrint upType = true
  atConnection : backend.lookup connection = if upType = [] then none else some (some [upgrade])
  atUpgrade : backend.lookup upgrade = if upType = [] then none else some (some [upType])
  atTe : backend.lookup te = if wantsTrailers then some (some [trailers]) else none
  hopByHop : ∀ k ∈ hopHeaders, k ≠ connection → k ≠ upgrade → k ≠ te → k ∉ backend

structure Forwards (containsToken : List GoString → GoString → Bool) (client : HeaderMap)
    (remoteAddr : GoString) (backend : HeaderMap) : Prop
    extends Requests backend (upgradeType containsToken client)
      (containsToken (client.values te) trailers) where
  named : ∀ k ∈ nominated client, k ∉ hopHeaders → k ≠ xForwardedFor → k ∉ backend
  endToEnd : ∀ k, k ∉ hopHeaders → k ∉ nominated client → k ≠ xForwardedFor →
    (k = userAgent → k ∈ client) → backend.lookup k = client.lookup k
  /-- The director sets it to an empty value when the client has none. -/
  atUserAgent : userAgent ∉ client → userAgent ∉ nominated client →
    backend.lookup userAgent = some (some [[]])
  forwardedFor : backend.lookup xForwardedFor
    = appended (unnamed client xForwardedFor) (clientIP remoteAddr).toList

section Forwards

variable {containsToken : List GoString → GoString → Bool}

/-- The header before `X-Forwarded-For`. -/
def reannounced (containsToken : List GoString → GoString → Bool) (client out : HeaderMap)
    (upType : GoString) : HeaderMap :=
  let out := if containsToken (client.values te) trailers then out.set te trailers else out
  if upType ≠ [] then (out.set connection upgrade).set upgrade upType else out

theorem lookup_reannounced (client out : HeaderMap) (upType k : GoString) :
    (reannounced containsToken client out upType).lookup k
      = if upType ≠ [] ∧ k = upgrade then some (some [upType])
        else if upType ≠ [] ∧ k = connection then some (some [upgrade])
        else if containsToken (client.values te) trailers ∧ k = te then some (some [trailers])
        else out.lookup k := by
  have hup := canonicalKey_hop upgrade_mem
  have hconn := canonicalKey_hop connection_mem
  have hte := canonicalKey_hop te_mem
  have hlookup : (if containsToken (client.values te) trailers then out.set te trailers
    else out).lookup k
      = if containsToken (client.values te) trailers ∧ k = te then some (some [trailers])
      else out.lookup k := by
    cases containsToken (client.values te) trailers with
    | true => simp [hte]
    | false => simp
  rw [reannounced]
  by_cases hnil : upType = []
  · simp [hnil, hlookup]
  · simp [hnil, hlookup, hup, hconn]

theorem lookup_reannounced_of_notMem (client out : HeaderMap) (upType : GoString) {k : GoString}
    (hk : k ∉ hopHeaders) :
    (reannounced containsToken client out upType).lookup k = out.lookup k := by
  simp only [lookup_reannounced, ne_of_hop upgrade_mem hk, ne_of_hop connection_mem hk,
    ne_of_hop te_mem hk, and_false, if_false]

theorem upgradeType_directorHeader (client : HeaderMap) :
    upgradeType containsToken (directorHeader client) = upgradeType containsToken client :=
  upgradeType_congr containsToken (lookup_directorHeader_hop client connection_mem)
    (lookup_directorHeader_hop client upgrade_mem)

theorem outgoingHeader_ok {client backend : HeaderMap} {remoteAddr : GoString} :
    outgoingHeader containsToken client remoteAddr = .ok backend
      ↔ isPrint (upgradeType containsToken client) = true ∧
        backend = setForwardedFor remoteAddr (reannounced containsToken client
          ((removeConnectionHeaders (directorHeader client)).deleteAll hopHeaders)
          (upgradeType containsToken client)) := by
  rw [outgoingHeader, upgradeType_directorHeader]
  cases hprint : isPrint (upgradeType containsToken client) with
  | false => simp
  | true =>
    constructor
    · intro h
      exact ⟨rfl, (Except.ok.inj h).symm⟩
    · rintro ⟨_, rfl⟩
      rfl

theorem lookup_outgoing_hop {client backend : HeaderMap} {remoteAddr : GoString}
    (h : outgoingHeader containsToken client remoteAddr = .ok backend) {k : GoString}
    (hk : k ∈ hopHeaders) :
    backend.lookup k
      = if upgradeType containsToken client ≠ [] ∧ k = upgrade
          then some (some [upgradeType containsToken client])
        else if upgradeType containsToken client ≠ [] ∧ k = connection then some (some [upgrade])
        else if containsToken (client.values te) trailers ∧ k = te then some (some [trailers])
        else none := by
  obtain ⟨_, rfl⟩ := outgoingHeader_ok.mp h
  rw [lookup_setForwardedFor_ne _ _ (Ne.symm (ne_of_hop hk xForwardedFor_notMem)),
    lookup_reannounced, lookup_stripped, if_pos (Or.inl hk)]

theorem lookup_reannounced_stripped (client : HeaderMap) {k : GoString} (hk : k ∉ hopHeaders) :
    (reannounced containsToken client
      ((removeConnectionHeaders (directorHeader client)).deleteAll hopHeaders)
      (upgradeType containsToken client)).lookup k
      = if k ∈ nominated client then none else (directorHeader client).lookup k := by
  have hnom : nominated (directorHeader client) = nominated client :=
    nominated_congr (lookup_directorHeader_hop client connection_mem)
  rw [lookup_reannounced_of_notMem _ _ _ hk, lookup_stripped, hnom]
  simp only [hk, false_or]

theorem outgoing_requests {client backend : HeaderMap} {remoteAddr : GoString}
    (h : outgoingHeader containsToken client remoteAddr = .ok backend) :
    Requests backend (upgradeType containsToken client)
      (containsToken (client.values te) trailers) where
  printable := (outgoingHeader_ok.mp h).1
  atConnection := by
    have h1 : connection ≠ upgrade := by decide
    have h2 : connection ≠ te := by decide
    rw [lookup_outgoing_hop h connection_mem]
    by_cases hnil : upgradeType containsToken client = [] <;> simp [hnil, h1, h2]
  atUpgrade := by
    have h1 : upgrade ≠ connection := by decide
    have h2 : upgrade ≠ te := by decide
    rw [lookup_outgoing_hop h upgrade_mem]
    by_cases hnil : upgradeType containsToken client = [] <;> simp [hnil, h1, h2]
  atTe := by
    have h1 : te ≠ upgrade := by decide
    have h2 : te ≠ connection := by decide
    rw [lookup_outgoing_hop h te_mem]
    simp [h1, h2]
  hopByHop := by
    intro k hk hconn hup hte
    rw [← AList.lookup_eq_none, lookup_outgoing_hop h hk]
    simp only [hup, hconn, hte, and_false, if_false]

theorem lookup_outgoing_endToEnd {client backend : HeaderMap} {remoteAddr : GoString}
    (h : outgoingHeader containsToken client remoteAddr = .ok backend) {k : GoString}
    (hhop : k ∉ hopHeaders) (hnamed : k ∉ nominated client) (hxff : k ≠ xForwardedFor)
    (hua : k = userAgent → k ∈ client) : backend.lookup k = client.lookup k := by
  obtain ⟨_, rfl⟩ := outgoingHeader_ok.mp h
  rw [lookup_setForwardedFor_ne _ _ hxff, lookup_reannounced_stripped client hhop, if_neg hnamed,
    lookup_directorHeader hua]

theorem lookup_outgoing_userAgent {client backend : HeaderMap} {remoteAddr : GoString}
    (h : outgoingHeader containsToken client remoteAddr = .ok backend) (hua : userAgent ∉ client)
    (hnamed : userAgent ∉ nominated client) : backend.lookup userAgent = some (some [[]]) := by
  obtain ⟨_, rfl⟩ := outgoingHeader_ok.mp h
  have hne : userAgent ≠ xForwardedFor := by decide
  rw [lookup_setForwardedFor_ne _ _ hne, lookup_reannounced_stripped client userAgent_notMem,
    if_neg hnamed, directorHeader, if_neg hua, HeaderMap.lookup_set,
    canonicalKey_userAgent, if_pos rfl]

theorem lookup_outgoing_forwardedFor {client backend : HeaderMap} {remoteAddr : GoString}
    (h : outgoingHeader containsToken client remoteAddr = .ok backend) :
    backend.lookup xForwardedFor
      = appended (unnamed client xForwardedFor) (clientIP remoteAddr).toList := by
  obtain ⟨_, rfl⟩ := outgoingHeader_ok.mp h
  have hua : xForwardedFor = userAgent → xForwardedFor ∈ client := fun he => absurd he (by decide)
  rw [lookup_setForwardedFor, lookup_reannounced_stripped client xForwardedFor_notMem,
    lookup_directorHeader hua, unnamed]

/-- **Nothing of the client's connection reaches the backend, and everything else does.** -/
theorem forwards {client backend : HeaderMap} {remoteAddr : GoString}
    (h : outgoingHeader containsToken client remoteAddr = .ok backend) :
    Forwards containsToken client remoteAddr backend where
  toRequests := outgoing_requests h
  named := by
    intro k hk hhop hxff
    obtain ⟨_, rfl⟩ := outgoingHeader_ok.mp h
    rw [← AList.lookup_eq_none, lookup_setForwardedFor_ne _ _ hxff,
      lookup_reannounced_stripped client hhop, if_pos hk]
  endToEnd := fun _ hhop hnamed hxff hua => lookup_outgoing_endToEnd h hhop hnamed hxff hua
  atUserAgent := lookup_outgoing_userAgent h
  forwardedFor := lookup_outgoing_forwardedFor h

end Forwards

/-- `HeaderValuesContainsToken`, as it is for tokens in ASCII. -/
def containsTokenFold (values : List GoString) (token : GoString) : Bool :=
  values.any fun v => (v.splitOn ',').any fun t => equalFold (trimString t) token

/-- A client asks for a websocket, and keeps a header from the backend. -/
def websocketHeader : HeaderMap :=
  ((((∅ : HeaderMap).add connection "x-secret, upgrade".toList).add upgrade "websocket".toList).add
    "X-Secret".toList "1".toList).add xForwardedFor "10.0.0.1".toList

theorem forwards_websocket :
    ∃ backend, outgoingHeader containsTokenFold websocketHeader "10.0.0.2:5000".toList
        = .ok backend ∧
      Forwards containsTokenFold websocketHeader "10.0.0.2:5000".toList backend :=
  ⟨_, rfl, forwards rfl⟩

/-! ## Proxies in a row -/

/-- What `HeaderValuesContainsToken` says of a header that the proxy has made itself. -/
structure FindsTokens (containsToken : List GoString → GoString → Bool) : Prop where
  nil : ∀ token, containsToken [] token = false
  upgrade : containsToken [upgrade] upgrade = true
  trailers : containsToken [trailers] trailers = true

section Chain

variable {containsToken : List GoString → GoString → Bool}

theorem Requests.upgradeType (laws : FindsTokens containsToken) {backend : HeaderMap}
    {upType : GoString} {wantsTrailers : Bool} (h : Requests backend upType wantsTrailers) :
    upgradeType containsToken backend = upType := by
  have hconn : backend.values connection = if upType = [] then [] else [upgrade] := by
    rw [HeaderMap.values, h.atConnection]
    split <;> rfl
  have hup : backend.values upgrade = if upType = [] then [] else [upType] := by
    rw [HeaderMap.values, h.atUpgrade]
    split <;> rfl
  rw [ReverseProxy.upgradeType, get_of_hop _ upgrade_mem, hconn, hup]
  by_cases hnil : upType = []
  · simp [hnil, laws.nil]
  · simp [hnil, laws.upgrade]

theorem Requests.wantsTrailers (laws : FindsTokens containsToken) {backend : HeaderMap}
    {upType : GoString} {wantsTrailers : Bool} (h : Requests backend upType wantsTrailers) :
    containsToken (backend.values te) trailers = wantsTrailers := by
  rw [HeaderMap.values, h.atTe]
  cases wantsTrailers with
  | false => exact laws.nil trailers
  | true => exact laws.trailers

/-- A proxy names nothing but `Upgrade`. -/
theorem Requests.nominated_mem {backend : HeaderMap} {upType : GoString} {wantsTrailers : Bool}
    (h : Requests backend upType wantsTrailers) {k : GoString} (hk : k ∈ nominated backend) :
    k ∈ hopHeaders := by
  have hconn : backend.values connection = if upType = [] then [] else [upgrade] := by
    rw [HeaderMap.values, h.atConnection]
    split <;> rfl
  rw [nominated, connectionFields, hconn] at hk
  by_cases hnil : upType = []
  · rw [if_pos hnil] at hk
    exact absurd hk List.not_mem_nil
  · rw [if_neg hnil] at hk
    have hfields : (headerElements [upgrade]).map HeaderMap.canonicalKey = [upgrade] := by decide
    rw [hfields] at hk
    exact List.mem_singleton.mp hk ▸ upgrade_mem

/-- Only the address of its client is changed by a second proxy. -/
theorem Requests.next (laws : FindsTokens containsToken) {header : HeaderMap} {upType : GoString}
    {wantsTrailers : Bool} (h : Requests header upType wantsTrailers) (remoteAddr : GoString) :
    ∃ backend, outgoingHeader containsToken header remoteAddr = .ok backend
      ∧ Requests backend upType wantsTrailers
      ∧ (∀ k, k ≠ xForwardedFor → k ≠ userAgent → backend.lookup k = header.lookup k)
      ∧ backend.lookup xForwardedFor
        = appended (header.lookup xForwardedFor) (clientIP remoteAddr).toList := by
  have hprint : isPrint (ReverseProxy.upgradeType containsToken header) = true := by
    rw [h.upgradeType laws]
    exact h.printable
  obtain ⟨backend, hok⟩ : ∃ backend, outgoingHeader containsToken header remoteAddr = .ok backend :=
    ⟨_, outgoingHeader_ok.mpr ⟨hprint, rfl⟩⟩
  have hrequests := outgoing_requests hok
  rw [h.upgradeType laws, h.wantsTrailers laws] at hrequests
  have hnamed : ∀ k, k ∉ hopHeaders → k ∉ nominated header :=
    fun k hk hmem => hk (h.nominated_mem hmem)
  refine ⟨_, hok, hrequests, fun k hxff hua => ?_, ?_⟩
  · by_cases hhop : k ∈ hopHeaders
    · by_cases hconn : k = connection
      · rw [hconn, hrequests.atConnection, h.atConnection]
      · by_cases hup : k = upgrade
        · rw [hup, hrequests.atUpgrade, h.atUpgrade]
        · by_cases hte : k = te
          · rw [hte, hrequests.atTe, h.atTe]
          · rw [AList.lookup_eq_none.mpr (hrequests.hopByHop k hhop hconn hup hte),
              AList.lookup_eq_none.mpr (h.hopByHop k hhop hconn hup hte)]
    · exact lookup_outgoing_endToEnd hok hhop (hnamed k hhop) hxff fun he => absurd he hua
  · rw [lookup_outgoing_forwardedFor hok, unnamed, if_neg (hnamed _ xForwardedFor_notMem)]

/-- The header after some proxies, the first one first.  Each has the address of its client. -/
def chain (containsToken : List GoString → GoString → Bool) (header : HeaderMap)
    (remoteAddrs : List GoString) : Except ProxyError HeaderMap :=
  remoteAddrs.foldlM (outgoingHeader containsToken) header

theorem filterMap_clientIP_cons (remoteAddr : GoString) (remoteAddrs : List GoString) :
    (remoteAddr :: remoteAddrs).filterMap clientIP
      = (clientIP remoteAddr).toList ++ remoteAddrs.filterMap clientIP := by
  cases hip : clientIP remoteAddr <;> simp [hip]

theorem Requests.chain (laws : FindsTokens containsToken) {header : HeaderMap} {upType : GoString}
    {wantsTrailers : Bool} (h : Requests header upType wantsTrailers)
    (remoteAddrs : List GoString) : ∃ backend, chain containsToken header remoteAddrs = .ok backend
      ∧ (∀ k, k ≠ xForwardedFor → k ≠ userAgent → backend.lookup k = header.lookup k)
      ∧ backend.lookup xForwardedFor
        = appended (header.lookup xForwardedFor) (remoteAddrs.filterMap clientIP) := by
  induction remoteAddrs generalizing header with
  | nil => exact ⟨header, rfl, fun _ _ _ => rfl, (appended_nil _).symm⟩
  | cons remoteAddr remoteAddrs ih =>
    obtain ⟨middle, hmiddle, hrequests, hsame, hxff⟩ := h.next laws remoteAddr
    obtain ⟨backend, hbackend, hsame', hxff'⟩ := ih hrequests
    refine ⟨backend, ?_, fun k hk hua => (hsame' k hk hua).trans (hsame k hk hua), ?_⟩
    · rw [ReverseProxy.chain, List.foldlM_cons, hmiddle]
      exact hbackend
    · rw [hxff', hxff, appended_appended, filterMap_clientIP_cons]

/-- **A request gets through any number of proxies as it left the first one**, with the addresses
of all the clients on the way. -/
theorem chain_forwards (laws : FindsTokens containsToken) {client first : HeaderMap}
    {remoteAddr : GoString} (h : outgoingHeader containsToken client remoteAddr = .ok first)
    (remoteAddrs : List GoString) :
    ∃ backend, chain containsToken client (remoteAddr :: remoteAddrs) = .ok backend
      ∧ (∀ k, k ≠ xForwardedFor → k ≠ userAgent → backend.lookup k = first.lookup k)
      ∧ backend.lookup xForwardedFor
        = appended (unnamed client xForwardedFor)
          ((remoteAddr :: remoteAddrs).filterMap clientIP) := by
  obtain ⟨backend, hbackend, hsame, hxff⟩ := (outgoing_requests h).chain laws remoteAddrs
  refine ⟨backend, ?_, hsame, ?_⟩
  · rw [chain, List.foldlM_cons, h]
    exact hbackend
  · rw [hxff, lookup_outgoing_forwardedFor h, appended_appended, filterMap_clientIP_cons]

theorem containsTokenFold_finds : FindsTokens containsTokenFold where
  nil := fun _ => rfl
  upgrade := by decide
  trailers := by decide

theorem chain_forwards_websocket :
    ∃ backend, chain containsTokenFold websocketHeader
        ["10.0.0.2:5000".toList, "10.0.0.3:5000".toList] = .ok backend
      ∧ backend.lookup xForwardedFor = some (some ["10.0.0.1, 10.0.0.2, 10.0.0.3".toList]) := by
  obtain ⟨first, hfirst⟩ : ∃ first,
      outgoingHeader containsTokenFold websocketHeader "10.0.0.2:5000".toList = .ok first :=
    ⟨_, rfl⟩
  obtain ⟨backend, hbackend, _, hxff⟩ := chain_forwards containsTokenFold_finds hfirst
    ["10.0.0.3:5000".toList]
  exact ⟨backend, hbackend, hxff.trans (by decide)⟩

end Chain

end ContainerDesktop.ReverseProxy
