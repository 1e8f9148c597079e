import ContainerDesktop.ReverseProxy.ServeHTTP

/-!
# The header and the trailers of a response

What of a response of the backend reaches the client.  `ServeHTTP` adds the header of the
backend to the one of the client, without what belongs to the connection of the backend.

The trailers are known after the body.  Their keys can be announced before, in `Trailer`; if
all of them were, the values are added under the keys, and else under keys with a prefix.
The server of `net/http` makes the trailers of the client out of either: `trailers_delivered`.
-/

namespace ContainerDesktop.ReverseProxy

open Rewrite (GoString)
open HeaderMap (isTokenChar)

/-! ## The header -/

/-- A hook that changes the length of the content and no other header, as the one that rewrites
bodies. -/
def KeepsHeader (w : World) : Prop :=
  ∀ res res', Hooked w res res' → res'.statusCode = res.statusCode ∧
    ∀ k, k ≠ "Content-Length".toList → res'.header.lookup k = res.header.lookup k

/-- What is left of a header without the connection. -/
def endToEnd (h : HeaderMap) (k : GoString) : List GoString :=
  if (hopHeaders ++ nominated h).contains k then [] else h.values k

section Header

variable {w : World} {client header : HeaderMap} {remoteAddr : GoString} {res res' : Response}

theorem values_strip (res : Response) (k : GoString) :
    (strip res).header.values k = endToEnd res.header k := by
  rw [endToEnd, HeaderMap.values, strip, lookup_stripped]
  by_cases hk : k ∈ hopHeaders ∨ k ∈ nominated res.header
  · rw [if_pos hk, if_pos (List.contains_iff_mem.mpr (List.mem_append.mpr hk))]
    rfl
  · rw [if_neg hk, if_neg fun hcontains =>
      hk (List.mem_append.mp (List.contains_iff_mem.mp hcontains)), HeaderMap.values]

theorem canonical_strip (h : res.header.Canonical) : (strip res).header.Canonical := by
  show HeaderMap.Canonical ((removeConnectionHeaders res.header).deleteAll hopHeaders)
  rw [removeConnectionHeaders_eq]
  exact (h.deleteAll _).deleteAll _

theorem canonical_hooked (h : res.header.Canonical)
    (hkept : ∀ k, k ≠ "Content-Length".toList → res'.header.lookup k = res.header.lookup k) :
    res'.header.Canonical := by
  intro k hk
  by_cases hlength : k = "Content-Length".toList
  · rw [hlength]
    decide
  · refine h k (AList.lookup_isSome.mp ?_)
    rw [← hkept k hlength]
    exact AList.lookup_isSome.mpr hk

theorem canonicalKey_trailer :
    HeaderMap.canonicalKey "Trailer".toList = "Trailer".toList := by decide

theorem header_announce (w : World) (header : HeaderMap) (res : Response) :
    (announce w res (.fresh header)).header
      = if ((w.range res.announced).map Sigma.fst).length > 0
        then (header.addAll (w.range res.header)).add "Trailer".toList
          (joinComma ((w.range res.announced).map Sigma.fst))
        else header.addAll (w.range res.header) := by
  rw [announce]
  split <;> rfl

/-- Before the header is written, the entries of the response are added to it. -/
theorem values_announce (h : res.header.Canonical) {k : GoString} (hk : k ≠ "Trailer".toList) :
    (announce w res (.fresh header)).header.values k = header.values k ++ res.header.values k := by
  have hadded := h.values_addAll (h := header) (k := k) (w.range_perm res.header)
  rw [header_announce]
  split
  · rw [HeaderMap.values_add, canonicalKey_trailer, if_neg hk, hadded]
  · exact hadded

/-- **The header of the backend is added to the one of the client, without the backend's
connection**, when a header is written at all: not for an error, on a connection that was handed
over, or behind a panic before it. -/
theorem response_header (hhook : KeepsHeader w)
    (hcanonical : ∀ res, Received w client remoteAddr res → res.header.Canonical)
    (herrors : (serveHTTP w client remoteAddr (.fresh header)).2.errors = [])
    (hhijacked : (serveHTTP w client remoteAddr (.fresh header)).2.hijacked = false)
    (hpanic : ∀ p, (serveHTTP w client remoteAddr (.fresh header)).1 = .error p →
      p = .abortHandler) :
    ∃ res written, Received w client remoteAddr res ∧
      (serveHTTP w client remoteAddr (.fresh header)).2.answer = some (res.statusCode, written) ∧
      ∀ k, k ≠ "Content-Length".toList → k ≠ "Trailer".toList →
        written.values k = header.values k ++ endToEnd res.header k := by
  obtain ⟨hending, -⟩ := serveHTTP_serves w client remoteAddr header
  generalize serveHTTP w client remoteAddr (.fresh header) = ended at *
  obtain ⟨o, s⟩ := ended
  cases hending with
  | failed hne _ _ => exact absurd herrors hne
  | switched _ _ _ _ _ _ hh => exact nomatch hh.symm.trans hhijacked
  | hookPanicked _ _ => exact nomatch hpanic _ rfl
  | invalidStatus _ _ _ _ _ _ => exact nomatch hpanic _ rfl
  | @passedOn _ _ res res' _ hres hhooked hanswer _ _ _ =>
    obtain ⟨hstatus, hkept⟩ := hhook _ _ hhooked
    have hres' : res'.header.Canonical :=
      canonical_hooked (canonical_strip (hcanonical res hres)) hkept
    refine ⟨res, (announce w res' (.fresh header)).header, hres, ?_, fun k hlength htrailer => ?_⟩
    · rw [hanswer, hstatus]
      rfl
    · rw [values_announce hres' htrailer, HeaderMap.values_of_lookup
        (hkept k hlength), values_strip]

end Header

/-- A world in which nothing fails. -/
def quietWorld (res : Response) (hfinal : res.Final) : World where
  containsToken := containsTokenFold
  finds := containsTokenFold_finds
  range := fun h => h.entries
  range_perm := fun h => List.Perm.refl h.entries
  roundTrip := fun _ => .ok res
  roundTrip_final := fun h => Except.ok.inj h ▸ hfinal
  hook := none
  hook_final := fun h => nomatch h
  copyResult := none
  underServer := true
  isHijacker := true
  hijackError := none
  writeError := none
  flushError := none
  relayError := none

/-- A response with a header of its connection. -/
def closingResponse : Response where
  statusCode := 200
  header := ((∅ : HeaderMap).add connection "close, x-hop".toList).add "X-Hop".toList "1".toList
  announced := ∅
  trailer := ∅
  body := 0
  writableBody := false

def closingWorld : World := quietWorld closingResponse (.inr (.inr (by decide)))

theorem response_header_closing : ∃ res written, Received closingWorld ∅ [] res ∧
    (serveHTTP closingWorld ∅ [] (.fresh ∅)).2.answer = some (res.statusCode, written) ∧
    ∀ k, k ≠ "Content-Length".toList → k ≠ "Trailer".toList →
      written.values k = HeaderMap.values ∅ k ++ endToEnd res.header k := by
  have hhook : KeepsHeader closingWorld := by
    intro res res' hhooked
    obtain ⟨-, rfl⟩ := Prod.mk.inj (Except.ok.inj hhooked)
    exact ⟨rfl, fun _ _ => rfl⟩
  have hcanonical : ∀ res, Received closingWorld ∅ [] res → res.header.Canonical := by
    rintro res ⟨out, _, hres⟩
    rw [← Except.ok.inj hres]
    exact HeaderMap.canonical_empty.add.add
  exact response_header hhook hcanonical rfl rfl fun p hp => nomatch hp

/-! ## Lists with commas -/

section Elements

theorem not_token {c : Char} (hc : c = ',' ∨ isASCIISpace c = true) : isTokenChar c = false := by
  rcases hc with rfl | hc
  · decide
  · simp only [isASCIISpace, Bool.or_eq_true, beq_iff_eq] at hc
    rcases hc with ((rfl | rfl) | rfl) | rfl <;> decide

/-- A key that a header can have. -/
structure IsToken (key : GoString) : Prop where
  nonempty : key ≠ []
  chars : ∀ c ∈ key, isTokenChar c = true

theorem IsToken.no_space {key : GoString} (h : IsToken key) {c : Char} (hc : c ∈ key) :
    isASCIISpace c = false := by
  cases hspace : isASCIISpace c with
  | false => rfl
  | true => exact absurd ((h.chars c hc).symm.trans (not_token (Or.inr hspace))) Bool.noConfusion

theorem IsToken.no_comma {key : GoString} (h : IsToken key) : ',' ∉ key := fun hc =>
  absurd ((h.chars _ hc).symm.trans (not_token (Or.inl rfl))) Bool.noConfusion

theorem IsToken.trim {key : GoString} (h : IsToken key) : trimString key = key := by
  have hfront : key.dropWhile isASCIISpace = key := by
    cases key with
    | nil => rfl
    | cons c cs => rw [List.dropWhile_cons, h.no_space List.mem_cons_self, if_neg Bool.noConfusion]
  rw [trimString, hfront, List.rdropWhile_eq_self_iff]
  intro hne hspace
  exact absurd ((h.no_space (List.getLast_mem hne)).symm.trans hspace) Bool.noConfusion

/-- The space after a comma does not matter. -/
theorem headerElements_space (s : GoString) : headerElements [' ' :: s] = headerElements [s] := by
  have hsplit : (' ' :: s).splitOn ',' = (s.splitOn ',').modifyHead (' ' :: ·) := by
    rw [List.splitOn_cons_eq_if_modifyHead]
    rfl
  have htrim : ∀ s : GoString, trimString (' ' :: s) = trimString s := fun _ => rfl
  simp only [headerElements, List.flatMap_singleton, hsplit]
  cases s.splitOn ',' with
  | nil => rfl
  | cons a l => rw [List.modifyHead_cons, List.map_cons, List.map_cons, htrim]

theorem headerElements_cons {key s : GoString} (h : IsToken key) :
    headerElements [key ++ ',' :: s] = key :: headerElements [s] := by
  simp only [headerElements, List.flatMap_singleton]
  rw [List.splitOn_append_cons_self_of_not_mem h.no_comma, List.map_cons, h.trim,
    List.filter_cons_of_pos]
  exact decide_eq_true h.nonempty

/-- A list that was joined is read again. -/
theorem headerElements_joinComma : ∀ keys : List GoString, (∀ key ∈ keys, IsToken key) → keys ≠ [] →
    headerElements [joinComma keys] = keys
  | [], _, hne => absurd rfl hne
  | [key], h, _ => by
    have hkey := h key List.mem_cons_self
    have hsplit : key.splitOn ',' = [key] := List.splitOn_eq_singleton hkey.no_comma
    simp only [headerElements, List.flatMap_singleton, joinComma_singleton, hsplit,
      List.map_cons, List.map_nil, hkey.trim]
    exact List.filter_cons_of_pos (decide_eq_true hkey.nonempty)
  | key :: key' :: keys, h, _ => by
    have hjoin : joinComma (key :: key' :: keys)
        = key ++ ',' :: ' ' :: joinComma (key' :: keys) := by
      rw [show key :: key' :: keys = [key] ++ (key' :: keys) from rfl,
        joinComma_append (List.cons_ne_nil _ _) (List.cons_ne_nil _ _), joinComma_singleton,
        List.append_assoc]
      rfl
    rw [hjoin, headerElements_cons (h key List.mem_cons_self), headerElements_space,
      headerElements_joinComma (key' :: keys) (fun k hk => h k (List.mem_cons_of_mem _ hk))
      (List.cons_ne_nil _ _)]

end Elements

/-! ## The trailers of the client -/

/-- The trailers that `net/http` reads off the header when it is written. -/
def declaredTrailers (validTrailerHeader : GoString → Bool) (written : HeaderMap) : List GoString :=
  ((headerElements (written.values "Trailer".toList)).map HeaderMap.canonicalKey).filter
    validTrailerHeader

/-- The trailers with a prefix. -/
def prefixedTrailers (entries : List (Σ _ : GoString, Option (List GoString))) : HeaderMap :=
  entries.foldr (fun e t => if trailerPrefix.isPrefixOf e.1 then t.insert (e.1.drop 8) e.2 else t) ∅

/-- `finalTrailers` of `net/http`, for the header when it was written and when the handler has
returned. -/
def finalTrailers (w : World) (validTrailerHeader : GoString → Bool)
    (written final : HeaderMap) : HeaderMap :=
  (declaredTrailers validTrailerHeader written).foldl
    (fun t k => (final.values k).foldl (fun t v => t.add k v) t) (prefixedTrailers (w.range final))

/-- What a response with trailers is like when it comes from the transport.  `header` is what the
client's header has before. -/
structure HasTrailers (validTrailerHeader : GoString → Bool) (header : HeaderMap)
    (res : Response) : Prop where
  canonical : res.header.Canonical
  token : ∀ k ∈ res.trailer, IsToken k ∧ HeaderMap.canonicalKey k = k ∧
    validTrailerHeader k = true ∧ k ≠ "Trailer".toList
  announced : ∀ k ∈ res.announced, k ∈ res.trailer
  /-- No header is also a trailer. -/
  apart : ∀ k ∈ res.trailer, header.values k = [] ∧ res.header.values k = []
  noTrailer : header.values "Trailer".toList = [] ∧ res.header.values "Trailer".toList = []
  noPrefix : ∀ k, header.values (trailerPrefix ++ k) = [] ∧
    res.header.values (trailerPrefix ++ k) = []

section Trailers

theorem isPrefixOf_prefixed (k : GoString) : trailerPrefix.isPrefixOf (trailerPrefix ++ k) = true :=
  List.isPrefixOf_iff_prefix.mpr (List.prefix_append _ _)

theorem drop_prefixed {k : GoString} (h : trailerPrefix.isPrefixOf k = true) :
    trailerPrefix ++ k.drop 8 = k := by
  obtain ⟨rest, rfl⟩ := List.isPrefixOf_iff_prefix.mp h
  rfl

/-- A key with the prefix is no token, so it is canonical. -/
theorem canonicalKey_prefixed (k : GoString) :
    HeaderMap.canonicalKey (trailerPrefix ++ k) = trailerPrefix ++ k := by
  refine if_neg fun hall => ?_
  have hcolon : ':' ∈ trailerPrefix ++ k := List.mem_append_left k (by decide)
  exact absurd (List.all_eq_true.mp hall ':' hcolon) (by decide)

theorem values_prefixedTrailers (entries : List (Σ _ : GoString, Option (List GoString)))
    (hkeys : entries.NodupKeys) (k : GoString) :
    (prefixedTrailers entries).lookup k = entries.dlookup (trailerPrefix ++ k) := by
  induction entries with
  | nil => rfl
  | cons e entries ih =>
    obtain ⟨key, vs⟩ := e
    have hrest := ih (List.nodupKeys_cons.mp hkeys).2
    show (if trailerPrefix.isPrefixOf key then (prefixedTrailers entries).insert (key.drop 8) vs
      else prefixedTrailers entries).lookup k = _
    by_cases hk : trailerPrefix ++ k = key
    · subst hk
      rw [if_pos (isPrefixOf_prefixed k), List.dlookup_cons_eq]
      exact AList.lookup_insert _
    · rw [List.dlookup_cons_ne _ _ hk, ← hrest]
      split
      · rename_i hprefix
        have hne : k ≠ key.drop 8 := by
          rintro rfl
          exact hk (drop_prefixed hprefix)
        exact AList.lookup_insert_ne hne
      · rfl

theorem values_declared (t final : HeaderMap) (k : GoString) : ∀ keys : List GoString, keys.Nodup →
    (∀ key ∈ keys, HeaderMap.canonicalKey key = key) →
    (keys.foldl (fun t k => (final.values k).foldl (fun t v => t.add k v) t) t).values k
      = if k ∈ keys then t.values k ++ final.values k else t.values k := by
  intro keys
  induction keys generalizing t with
  | nil => intro _ _; rfl
  | cons key keys ih =>
    intro hnodup hcanonical
    obtain ⟨hnotin, hrest⟩ := List.nodup_cons.mp hnodup
    have hkey := hcanonical key List.mem_cons_self
    rw [List.foldl_cons, ih _ hrest fun key' h => hcanonical key' (List.mem_cons_of_mem _ h),
      HeaderMap.values_foldl_add, hkey]
    by_cases hk : k = key
    · subst hk
      rw [if_neg hnotin, if_pos rfl, if_pos List.mem_cons_self]
    · rw [if_neg hk]
      by_cases hmem : k ∈ keys
      · rw [if_pos hmem, if_pos (List.mem_cons_of_mem _ hmem)]
      · rw [if_neg hmem, if_neg (by simp [hk, hmem])]

/-- A map that is asked for a key with the prefix. -/
theorem values_prefixed (w : World) (final : HeaderMap) (k : GoString) :
    (prefixedTrailers (w.range final)).values k = final.values (trailerPrefix ++ k) := by
  have hkeys : (w.range final).NodupKeys :=
    (List.perm_nodupKeys (w.range_perm final)).mpr final.nodupKeys
  have hlookup : (w.range final).dlookup (trailerPrefix ++ k) = final.lookup (trailerPrefix ++ k) :=
    List.perm_dlookup _ hkeys (w.range_perm final)
  rw [HeaderMap.values, values_prefixedTrailers _ hkeys, hlookup, HeaderMap.values]

theorem not_token_prefixed (k : GoString) : ¬ IsToken (trailerPrefix ++ k) := fun h =>
  absurd (h.chars ':' (List.mem_append_left k (by decide))) (by decide)

/-- The values under keys with the prefix. -/
theorem spelledValues_prefixed (entries : List (Σ _ : GoString, Option (List GoString)))
    (hcanonical : ∀ e ∈ entries, HeaderMap.canonicalKey e.1 = e.1) (k : GoString) :
    HeaderMap.spelledValues (entries.map fun e => ⟨trailerPrefix ++ e.1, e.2⟩) (trailerPrefix ++ k)
      = HeaderMap.spelledValues entries k := by
  induction entries with
  | nil => rfl
  | cons e entries ih =>
    have hrest := ih fun e' he' => hcanonical e' (List.mem_cons_of_mem _ he')
    have hhead : (trailerPrefix ++ k = HeaderMap.canonicalKey (trailerPrefix ++ e.1))
        = (k = HeaderMap.canonicalKey e.1) := by
      rw [canonicalKey_prefixed, hcanonical e List.mem_cons_self, List.append_cancel_left_eq]
    show (if trailerPrefix ++ k = HeaderMap.canonicalKey (trailerPrefix ++ e.1)
        then e.2.getD [] else [])
      ++ HeaderMap.spelledValues (entries.map fun e => ⟨trailerPrefix ++ e.1, e.2⟩)
        (trailerPrefix ++ k) = _
    simp only [hhead, hrest]
    rfl

theorem spelledValues_token (entries : List (Σ _ : GoString, Option (List GoString))) {k : GoString}
    (hk : IsToken k) :
    HeaderMap.spelledValues (entries.map fun e => ⟨trailerPrefix ++ e.1, e.2⟩) k = [] := by
  induction entries with
  | nil => rfl
  | cons e entries ih =>
    have hne : k ≠ HeaderMap.canonicalKey (trailerPrefix ++ e.1) := by
      rw [canonicalKey_prefixed]
      rintro rfl
      exact not_token_prefixed _ hk
    show (if k = HeaderMap.canonicalKey (trailerPrefix ++ e.1) then e.2.getD [] else []) ++ _ = []
    rw [if_neg hne, List.nil_append]
    exact ih

end Trailers

section Delivered

variable {w : World} {validTrailerHeader : GoString → Bool} {header : HeaderMap} {res : Response}

theorem mem_rangeKeys (w : World) (h : HeaderMap) (k : GoString) :
    k ∈ (w.range h).map Sigma.fst ↔ k ∈ h :=
  ((w.range_perm h).map Sigma.fst).mem_iff

theorem nodup_rangeKeys (w : World) (h : HeaderMap) : ((w.range h).map Sigma.fst).Nodup :=
  ((w.range_perm h).map Sigma.fst).nodup_iff.mpr h.keys_nodup

theorem HasTrailers.canonical_trailer (h : HasTrailers validTrailerHeader header res) :
    res.trailer.Canonical :=
  fun k hk => (h.token k hk).2.1

/-- The keys of the announced trailers are read again. -/
theorem HasTrailers.declared (h : HasTrailers validTrailerHeader header res) :
    declaredTrailers validTrailerHeader (announce w res (.fresh header)).header
      = (w.range res.announced).map Sigma.fst := by
  have hadded := h.canonical.values_addAll (h := header) (k := "Trailer".toList)
    (w.range_perm res.header)
  rw [h.noTrailer.1, h.noTrailer.2] at hadded
  have htoken : ∀ k ∈ (w.range res.announced).map Sigma.fst, k ∈ res.trailer := fun k hk =>
    h.announced k ((mem_rangeKeys w _ k).mp hk)
  rw [declaredTrailers, header_announce]
  split
  · rename_i hlength
    have hmap : ((w.range res.announced).map Sigma.fst).map HeaderMap.canonicalKey
        = (w.range res.announced).map Sigma.fst :=
      (List.map_congr_left fun k hk => (h.token k (htoken k hk)).2.1).trans (List.map_id _)
    rw [HeaderMap.values_add, canonicalKey_trailer, if_pos rfl, hadded, List.append_nil,
      List.nil_append,
      headerElements_joinComma _ (fun k hk => (h.token k (htoken k hk)).1)
      (List.length_pos_iff.mp hlength), hmap]
    exact List.filter_eq_self.mpr fun k hk => (h.token k (htoken k hk)).2.2.1
  · rename_i hlength
    have hnil : (w.range res.announced).map Sigma.fst = [] := List.length_eq_zero_iff.mp (by omega)
    rw [hadded, hnil]
    rfl

theorem HasTrailers.values_header (h : HasTrailers validTrailerHeader header res) {k : GoString}
    (hk : k ∈ res.trailer) : (announce w res (.fresh header)).header.values k = [] := by
  rw [values_announce h.canonical (h.token k hk).2.2.2, (h.apart k hk).1, (h.apart k hk).2]
  rfl

theorem HasTrailers.values_header_prefixed (h : HasTrailers validTrailerHeader header res)
    (k : GoString) : (announce w res (.fresh header)).header.values (trailerPrefix ++ k) = [] := by
  have hne : trailerPrefix ++ k ≠ "Trailer".toList := by
    intro he
    have hlength := congrArg List.length he
    have hprefix : trailerPrefix.length = 8 := by decide
    have htrailer : "Trailer".toList.length = 7 := by decide
    rw [List.length_append] at hlength
    omega
  rw [values_announce h.canonical hne, (h.noPrefix k).1, (h.noPrefix k).2]
  rfl

theorem values_of_notMem {h : HeaderMap} {k : GoString} (hk : k ∉ h) : h.values k = [] :=
  HeaderMap.values_eq_nil (AList.lookup_eq_none.mpr hk)

/-- All trailers were announced if as many were. -/
theorem HasTrailers.all_announced (h : HasTrailers validTrailerHeader header res)
    (hlength : res.trailer.entries.length = res.announced.entries.length) {k : GoString}
    (hk : k ∈ res.trailer) : k ∈ res.announced := by
  have hsub : res.announced.keys ⊆ res.trailer.keys := fun key hkey => h.announced key hkey
  have hle : res.trailer.keys.length ≤ res.announced.keys.length := by
    have hkeys : ∀ h : HeaderMap, h.keys.length = h.entries.length :=
      fun _ => List.length_map Sigma.fst
    rw [hkeys, hkeys]
    omega
  have hperm := (List.subperm_of_subset res.announced.keys_nodup hsub).perm_of_length_le hle
  exact hperm.symm.subset hk

/-- **The trailers of the backend are the ones of the client**, whether they were announced or
not. -/
theorem trailers_delivered (h : HasTrailers validTrailerHeader header res) (k : GoString) :
    (finalTrailers w validTrailerHeader (announce w res (.fresh header)).header
      (addTrailers w res (announce w res (.fresh header)).header)).values k
      = res.trailer.values k := by
  have hkeys : ∀ key ∈ (w.range res.announced).map Sigma.fst, HeaderMap.canonicalKey key = key := by
    intro key hkey
    exact h.canonical_trailer key (h.announced key ((mem_rangeKeys w _ key).mp hkey))
  rw [finalTrailers, h.declared, values_declared _ _ _ _ (nodup_rangeKeys w _) hkeys,
    values_prefixed]
  simp only [mem_rangeKeys, addTrailers]
  by_cases hlength : res.trailer.entries.length = res.announced.entries.length
  · rw [if_pos hlength]
    have hadded : ∀ key,
        ((announce w res (.fresh header)).header.addAll (w.range res.trailer)).values key
          = (announce w res (.fresh header)).header.values key ++ res.trailer.values key :=
      fun key => h.canonical_trailer.values_addAll (w.range_perm res.trailer)
    have hprefix : res.trailer.values (trailerPrefix ++ k) = [] :=
      values_of_notMem fun hmem => not_token_prefixed k (h.token _ hmem).1
    rw [hadded, hadded, h.values_header_prefixed, hprefix]
    by_cases hk : k ∈ res.trailer
    · rw [if_pos (h.all_announced hlength hk), h.values_header hk]
      rfl
    · rw [if_neg fun hmem => hk (h.announced k hmem), values_of_notMem hk]
      rfl
  · rw [if_neg hlength]
    have hspelled : ∀ e ∈ w.range res.trailer, HeaderMap.canonicalKey e.1 = e.1 := fun e he =>
      h.canonical_trailer e.1 ((mem_rangeKeys w _ e.1).mp (List.mem_map_of_mem he))
    rw [HeaderMap.values_addAll, HeaderMap.values_addAll, h.values_header_prefixed,
      spelledValues_prefixed _ hspelled,
      h.canonical_trailer.spelledValues _ (w.range_perm res.trailer), List.nil_append]
    by_cases hk : k ∈ res.announced
    · have hmem := h.announced k hk
      rw [if_pos hk, h.values_header hmem, spelledValues_token _ (h.token k hmem).1]
      simp
    · rw [if_neg hk]

end Delivered

/-- A response whose checksum is known only after the body. -/
def checkedResponse : Response where
  statusCode := 200
  header := ∅
  announced := ∅
  trailer := (∅ : HeaderMap).add "X-Checksum".toList "1".toList
  body := 0
  writableBody := false

def checkedWorld : World := quietWorld checkedResponse (.inr (.inr (by decide)))

theorem trailers_delivered_checksum :
    (finalTrailers checkedWorld (fun _ => true)
        (announce checkedWorld checkedResponse (.fresh ∅)).header
        (addTrailers checkedWorld checkedResponse
          (announce checkedWorld checkedResponse (.fresh ∅)).header)).values "X-Checksum".toList
      = ["1".toList] := by
  have htoken : ∀ k ∈ checkedResponse.trailer, k = "X-Checksum".toList := fun k hk =>
    (HeaderMap.mem_add.mp hk).resolve_right (AList.notMem_empty k)
  have h : HasTrailers (fun _ => true) ∅ checkedResponse := by
    refine ⟨HeaderMap.canonical_empty, fun k hk => ?_, fun k hk => absurd hk (AList.notMem_empty k),
      fun k _ => ⟨rfl, rfl⟩, ⟨rfl, rfl⟩, fun k => ⟨rfl, rfl⟩⟩
    have hall : "X-Checksum".toList.all isTokenChar = true := by decide
    rw [htoken k hk]
    exact ⟨⟨by decide, List.all_eq_true.mp hall⟩, by decide, rfl, by decide⟩
  exact (trailers_delivered h _).trans rfl

end ContainerDesktop.ReverseProxy
