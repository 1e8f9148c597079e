import ContainerDesktop.Rewrite.Frame

/-!
# Requests of a Linux client

The proxy in a distribution puts its base path in front of an absolute source, but
only of one that `mapPath` takes for a path of the client: what begins with
`/mnt/host/` or `/mnt/wsl/` is decoded instead, and a backslash, which a name on
Linux may have, becomes a slash.  Both show in the length of the result, so
`request_prefixed` can say exactly which binds reach the daemon as they should.
-/

namespace ContainerDesktop.Rewrite

/-! ## Lengths -/

@[simp] theorem length_replaceAll (a b : Char) (s : GoString) :
    (replaceAll a b s).length = s.length := by
  simp [replaceAll]

theorem replaceAll_eq_self_iff {a b : Char} (hab : a ≠ b) {s : GoString} :
    replaceAll a b s = s ↔ a ∉ s := by
  refine ⟨fun h ha => ?_, replaceAll_of_not_mem⟩
  have hid : s.map (fun c => if c = a then b else c) = s.map id := by
    rw [List.map_id]
    exact h
  have hb := List.map_inj_left.mp hid a ha
  simp at hb
  exact hab hb.symm

theorem replaceAll_fields (ts : List GoString) :
    replaceAll '\\' '/' (fields ts) = fields (ts.map (replaceAll '\\' '/')) := by
  induction ts with
  | nil => rfl
  | cons t ts ih =>
    have hcons : fields (t :: ts) = ':' :: (t ++ fields ts) := by simp [fields]
    have hcons' : fields ((t :: ts).map (replaceAll '\\' '/'))
        = ':' :: (replaceAll '\\' '/' t ++ fields (ts.map (replaceAll '\\' '/'))) := by
        simp [fields]
    rw [hcons, hcons', ← ih, replaceAll, List.map_cons, List.map_append, if_neg (by decide)]
    rfl

theorem not_mem_replaceAll {a b c : Char} (hc : c ≠ b) {s : GoString} (h : c ∉ s) :
    c ∉ replaceAll a b s := by
  intro hm
  obtain ⟨d, hd, he⟩ := List.mem_map.mp hm
  by_cases hda : d = a
  · rw [if_pos hda] at he
    exact hc he.symm
  · rw [if_neg hda] at he
    exact h (he ▸ hd)

/-- The parts between slashes, with one slash less than parts. -/
theorem length_join_tail (q : GoString) :
    ((q.splitOn '/').headD []).length + (join (q.splitOn '/').tail '/').length ≤ q.length ∧
      ((q.splitOn '/').tail ≠ [] →
        ((q.splitOn '/').headD []).length + (join (q.splitOn '/').tail '/').length + 1
          = q.length) := by
  obtain ⟨x, xs, hsplit⟩ := List.exists_cons_of_ne_nil (List.splitOn_ne_nil '/' q)
  have hlen : q.length = (join (x :: xs) '/').length := by rw [← hsplit, join_splitOn]
  rw [hsplit, hlen, List.headD_cons, List.tail_cons]
  by_cases hxs : xs = []
  · subst hxs
    simp [join]
  · simp [join, List.intercalate_cons_of_ne_nil hxs]
    omega

/-! ## `mapPath` on Linux -/

/-- A source below `/mnt/host/` becomes a Windows path. -/
def decodeHost (q : GoString) : GoString :=
  replaceAll '/' '\\' (((q.drop 10).splitOn '/').headD [] ++ ":/".toList ++
    join ((q.drop 10).splitOn '/').tail '/')

/-- A source below `/mnt/wsl/` loses the distribution. -/
def decodeWsl (q : GoString) : GoString := join ((q.drop 9).splitOn '/').tail '/'

theorem length_decodeHost {q : GoString} (h : hostPrefix <+: q) :
    (decodeHost q).length < q.length := by
  have hq : hostPrefix.length ≤ q.length := h.length_le
  have hten : hostPrefix.length = 10 := by decide
  have htwo : ":/".toList.length = 2 := by decide
  obtain ⟨hle, -⟩ := length_join_tail (q.drop 10)
  rw [List.length_drop] at hle
  simp only [decodeHost, length_replaceAll, List.length_append]
  omega

theorem length_decodeWsl {q : GoString} (h : wslPrefix <+: q) :
    (decodeWsl q).length < q.length := by
  have hq : wslPrefix.length ≤ q.length := h.length_le
  obtain ⟨hle, -⟩ := length_join_tail (q.drop 9)
  rw [List.length_drop] at hle
  rw [length_wslPrefix] at hq
  rw [decodeWsl]
  omega

/-- What becomes of a source whose backslashes are slashes already. -/
def mapSource (path q : GoString) : GoString :=
  if hostPrefix.isPrefixOf q then decodeHost q
  else if wslPrefix.isPrefixOf q then decodeWsl q
  else if "/".toList.isPrefixOf q then path ++ q
  else q

theorem prefix_fields_iff {q : GoString} (ts : List GoString) :
    "/".toList <+: q ++ fields ts ↔ "/".toList <+: q := by
  cases q with
  | nil =>
    cases ts with
    | nil => rfl
    | cons t ts =>
      exact iff_of_false (fun h => absurd (List.cons_prefix_cons.mp h).1 (by decide)) (by decide)
  | cons c q =>
    have hslash : ∀ s : GoString, "/".toList <+: c :: s ↔ '/' = c := fun s => by
      show ['/'] <+: c :: s ↔ _
      simp
    rw [List.cons_append, hslash, hslash]

theorem mapPath_linux {p : GoString} (hp : ':' ∉ p) (ts : List GoString) (path : GoString) :
    mapPath false (p ++ fields ts) path
      = mapSource path (replaceAll '\\' '/' p) ++ fields (ts.map (replaceAll '\\' '/')) := by
  have hcolon : ':' ∉ replaceAll '\\' '/' p := not_mem_replaceAll (by decide) hp
  have hs : replaceAll '\\' '/' (p ++ fields ts)
      = replaceAll '\\' '/' p ++ fields (ts.map (replaceAll '\\' '/')) := by
    rw [replaceAll_append, replaceAll_fields]
  generalize replaceAll '\\' '/' p = q at hcolon hs ⊢
  generalize ts.map (replaceAll '\\' '/') = us at hs ⊢
  simp only [mapPath, hs, splitOn_fields hcolon, List.headD_cons, List.tail_cons, mapSource]
  by_cases hhost : hostPrefix.isPrefixOf q = true
  · rw [if_pos hhost, if_pos hhost]
    exact join_fieldParts _ _
  · rw [if_neg hhost, if_neg hhost]
    by_cases hwsl : wslPrefix.isPrefixOf q = true
    · rw [if_pos hwsl, if_pos hwsl]
      exact join_fieldParts _ _
    · rw [if_neg hwsl, if_neg hwsl, if_neg Bool.false_ne_true]
      by_cases habs : "/".toList <+: q
      · rw [if_pos (List.isPrefixOf_iff_prefix.mpr ((prefix_fields_iff us).mpr habs)),
          if_pos (List.isPrefixOf_iff_prefix.mpr habs), List.append_assoc]
      · have hnot : ∀ {s : GoString}, ¬ "/".toList <+: s → ¬ "/".toList.isPrefixOf s = true :=
          fun h hc => h (List.isPrefixOf_iff_prefix.mp hc)
        rw [if_neg (hnot fun hc => habs ((prefix_fields_iff us).mp hc)), if_neg (hnot habs)]

/-! ## What is put under the base path -/

/-- No rule of `mapPath` for other paths applies to the source. -/
structure Plain (p : GoString) (ts : List GoString) : Prop where
  backslash : '\\' ∉ p ++ fields ts
  host : ¬ hostPrefix <+: p
  wsl : ¬ wslPrefix <+: p

section Source

variable {path p : GoString}

/-- Decoding makes a bind shorter. -/
theorem length_mapPath_decoded (path : GoString) (hp : ':' ∉ p) (ts : List GoString)
    (h : hostPrefix <+: replaceAll '\\' '/' p ∨ wslPrefix <+: replaceAll '\\' '/' p) :
    (mapPath false (p ++ fields ts) path).length < (p ++ fields ts).length := by
  have hlen : (fields (ts.map (replaceAll '\\' '/'))).length = (fields ts).length := by
    rw [← replaceAll_fields, length_replaceAll]
  have hp' : (replaceAll '\\' '/' p).length = p.length := length_replaceAll _ _ _
  rw [mapPath_linux hp, List.length_append, List.length_append, hlen, mapSource]
  by_cases hhost : hostPrefix <+: replaceAll '\\' '/' p
  · rw [if_pos (List.isPrefixOf_iff_prefix.mpr hhost)]
    have := length_decodeHost hhost
    omega
  · have hwsl := h.resolve_left hhost
    rw [if_neg fun hc => hhost (List.isPrefixOf_iff_prefix.mp hc),
      if_pos (List.isPrefixOf_iff_prefix.mpr hwsl)]
    have := length_decodeWsl hwsl
    omega

/-- What is not decoded keeps its text, with slashes for backslashes. -/
theorem mapPath_of_not_decoded (hp : ':' ∉ p) (ts : List GoString)
    (hhost : ¬ hostPrefix <+: replaceAll '\\' '/' p)
    (hwsl : ¬ wslPrefix <+: replaceAll '\\' '/' p) : mapPath false (p ++ fields ts) path
      = (if "/".toList <+: replaceAll '\\' '/' p then path else []) ++
          replaceAll '\\' '/' (p ++ fields ts) := by
  rw [mapPath_linux hp, mapSource, if_neg fun hc => hhost (List.isPrefixOf_iff_prefix.mp hc),
    if_neg fun hc => hwsl (List.isPrefixOf_iff_prefix.mp hc), replaceAll_append, replaceAll_fields]
  by_cases habs : "/".toList <+: replaceAll '\\' '/' p
  · rw [if_pos (List.isPrefixOf_iff_prefix.mpr habs), if_pos habs, List.append_assoc]
  · rw [if_neg fun hc => habs (List.isPrefixOf_iff_prefix.mp hc), if_neg habs, List.nil_append]

theorem prefix_replaceAll {t : GoString} (ht : '\\' ∉ t) (h : t <+: p) :
    t <+: replaceAll '\\' '/' p := by
  obtain ⟨u, rfl⟩ := h
  rw [replaceAll_append, replaceAll_of_not_mem ht]
  exact List.prefix_append _ _

theorem mapPath_absolute_iff (hp : ':' ∉ p) (habs : "/".toList <+: p) (ts : List GoString) :
    mapPath false (p ++ fields ts) path = path ++ (p ++ fields ts) ↔ Plain p ts := by
  have habs' : "/".toList <+: replaceAll '\\' '/' p := prefix_replaceAll (by decide) habs
  by_cases hdecoded : hostPrefix <+: replaceAll '\\' '/' p ∨ wslPrefix <+: replaceAll '\\' '/' p
  · refine iff_of_false (fun h => ?_) fun hplain => ?_
    · have hlen := length_mapPath_decoded path hp ts hdecoded
      rw [h, List.length_append] at hlen
      omega
    · have hback : '\\' ∉ p := fun hc => hplain.backslash (List.mem_append_left _ hc)
      rw [replaceAll_of_not_mem hback] at hdecoded
      exact hdecoded.elim hplain.host hplain.wsl
  · obtain ⟨hhost, hwsl⟩ := not_or.mp hdecoded
    rw [mapPath_of_not_decoded hp ts hhost hwsl, if_pos habs', List.append_cancel_left_eq,
      replaceAll_eq_self_iff (by decide)]
    refine ⟨fun hback => ⟨hback, fun hc => hhost ?_, fun hc => hwsl ?_⟩, fun hplain =>
      hplain.backslash⟩
    · exact prefix_replaceAll (by decide) hc
    · exact prefix_replaceAll (by decide) hc

theorem mapPath_volume_iff (hp : ':' ∉ p) (hrel : ¬ "/".toList <+: p) (ts : List GoString) :
    mapPath false (p ++ fields ts) path = p ++ fields ts ↔ '\\' ∉ p ++ fields ts := by
  by_cases hback : '\\' ∈ p ++ fields ts
  · refine iff_of_false (fun h => ?_) (not_not_intro hback)
    by_cases hdecoded : hostPrefix <+: replaceAll '\\' '/' p ∨ wslPrefix <+: replaceAll '\\' '/' p
    · have hlen := length_mapPath_decoded path hp ts hdecoded
      rw [h] at hlen
      omega
    · obtain ⟨hhost, hwsl⟩ := not_or.mp hdecoded
      rw [mapPath_of_not_decoded hp ts hhost hwsl] at h
      -- a base path in front of as many characters is no base path
      have hsame : replaceAll '\\' '/' (p ++ fields ts) = p ++ fields ts := by
        have hlen := congrArg List.length h
        rw [List.length_append, length_replaceAll] at hlen
        have hnil : (if "/".toList <+: replaceAll '\\' '/' p then path else []) = [] :=
          List.length_eq_zero_iff.mp (by omega)
        rwa [hnil, List.nil_append] at h
      exact (replaceAll_eq_self_iff (by decide)).mp hsame hback
  · refine iff_of_true ?_ hback
    have hp' : replaceAll '\\' '/' p = p :=
      replaceAll_of_not_mem fun hc => hback (List.mem_append_left _ hc)
    have hnot : ∀ {t : GoString}, "/".toList <+: t → ¬ t <+: replaceAll '\\' '/' p := fun ht hc =>
      hrel (hp' ▸ ht.trans hc)
    rw [mapPath_of_not_decoded hp ts (hnot (by decide)) (hnot (by decide)),
      if_neg (hnot (List.prefix_refl _)), List.nil_append, replaceAll_of_not_mem hback]

end Source

/-! ## What is sent -/

/-- An absolute source belongs under the base path, the name of a volume does not. -/
def underBase (path p : GoString) : GoString := if "/".toList <+: p then path ++ p else p

theorem mapPath_underBase_iff {path p : GoString} (hp : ':' ∉ p) (ts : List GoString) :
    mapPath false (p ++ fields ts) path = underBase path p ++ fields ts ↔ Plain p ts := by
  rw [underBase]
  by_cases habs : "/".toList <+: p
  · rw [if_pos habs, List.append_assoc]
    exact mapPath_absolute_iff hp habs ts
  · rw [if_neg habs, mapPath_volume_iff hp habs ts]
    refine ⟨fun h => ⟨h, fun hc => habs ?_, fun hc => habs ?_⟩, fun h => h.backslash⟩
    · exact (by decide : "/".toList <+: hostPrefix).trans hc
    · exact (by decide : "/".toList <+: wslPrefix).trans hc

/-- The binds at the positions `T` are sent with their sources under the base path once. -/
def SentUnderBase {N : Type} (path : GoString) (T : Position → Prop) (doc doc' : Json N) : Prop :=
  ∀ x p ts, T x → ':' ∉ p → doc.at x = some (.str (p ++ fields ts)) →
    doc'.at x = some (.str (underBase path p ++ fields ts))

def PlainAt {N : Type} (T : Position → Prop) (doc : Json N) : Prop :=
  ∀ x p ts, T x → ':' ∉ p → doc.at x = some (.str (p ++ fields ts)) → Plain p ts

theorem sentUnderBase_iff {N : Type} {path : GoString} {T : Position → Prop} {doc doc' : Json N}
    (h : ChangedAt T (mapPath false · path) doc doc') :
    SentUnderBase path T doc doc' ↔ PlainAt T doc := by
  refine forall_congr' fun x => forall_congr' fun p => forall_congr' fun ts => ?_
  refine forall_congr' fun hx => forall_congr' fun hp => forall_congr' fun hat => ?_
  obtain ⟨s, hs, hs'⟩ := h.changed x hx
  obtain rfl := Json.str.inj (Option.some.inj (hs.symm.trans hat))
  rw [hs', ← mapPath_underBase_iff hp ts]
  exact ⟨fun he => Json.str.inj (Option.some.inj he), fun he => by rw [he]⟩

theorem DistroName.basePath_name (D : DistroName) : Rewrite.basePath D.name = D.basePath := by
  have hlen : D.name.length > 0 := List.length_pos_iff.mpr D.ne_nil
  have hwsl : wslPrefix = "/mnt/".toList ++ "wsl/".toList := by decide
  rw [Rewrite.basePath, if_pos hlen, DistroName.basePath, hwsl, List.append_assoc]

/-- **Which binds reach the daemon with their sources under the base path once**: those without a
backslash whose source does not begin with `/mnt/host/` or `/mnt/wsl/`. -/
theorem request_prefixed (D : DistroName) :
    (∀ p ts, ':' ∉ p → "/".toList <+: p →
        (mapPath false (p ++ fields ts) D.basePath = D.basePath ++ (p ++ fields ts) ↔ Plain p ts)) ∧
      (∀ p ts, ':' ∉ p → ¬ "/".toList <+: p →
        (mapPath false (p ++ fields ts) D.basePath = p ++ fields ts ↔ '\\' ∉ p ++ fields ts)) ∧
      ∀ {N : Type} (C : JsonCodec N) (urlPath : GoString) (rewriter : Rewriter)
      (buf bytes : List UInt8)
        (doc : Json N), getRewriter urlPath = some rewriter → Unmarshals C buf doc →
        (rewriteBody false C urlPath D.name (some ⟨buf, none⟩)).1 = .ok (.ok bytes) →
        ∃ doc', C.marshal doc' = .ok bytes ∧
          (SentUnderBase D.basePath (rewriter.IsSource doc) doc doc' ↔
            PlainAt (rewriter.IsSource doc) doc) := by
  refine ⟨fun p ts hp habs => mapPath_absolute_iff hp habs ts,
    fun p ts hp hrel => mapPath_volume_iff hp hrel ts, ?_⟩
  intro N C urlPath rewriter buf bytes doc hrewriter hdoc hbytes
  obtain ⟨step, hstep, hchanged, -⟩ := rewriteRead_unmarshals false D.name rewriter hdoc
  rw [rewriteBody_reads hrewriter] at hbytes
  cases step with
  | error e => exact nomatch hstep.symm.trans hbytes
  | ok doc' =>
    have hmarshal := Except.ok.inj (hstep.symm.trans hbytes)
    have hdoc' := hchanged doc' rfl
    rw [D.basePath_name] at hdoc'
    exact ⟨doc', hmarshal, sentUnderBase_iff hdoc'⟩

/-- A container with one bind. -/
def oneBind (bind : GoString) : Json Unit :=
  .obj [("HostConfig".toList, .obj [("Binds".toList, .arr [.str bind])])]

def oneBindText (bind : GoString) : List UInt8 :=
  (["\x7b\"HostConfig\":\x7b\"Binds\":[\"".toList, bind, "\"]\x7d\x7d".toList].flatten).map
    fun c => c.toNat.toUInt8

/-- A codec for this container. -/
def oneBindCodec : JsonCodec Unit where
  unmarshalMap buf :=
    if buf = oneBindText "/home:/data".toList then
      .ok [("HostConfig".toList, .obj [("Binds".toList, .arr [.str "/home:/data".toList])])]
    else .error "invalid character".toList
  unmarshalArray _ := .error "invalid character".toList
  marshal
    | .obj [(_, .obj [(_, .arr [.str bind])])] => .ok (oneBindText bind)
    | _ => .ok (oneBindText [])
  marshal_ok o := by
    split
    · exact ⟨_, rfl, List.cons_ne_nil _ _⟩
    · exact ⟨_, rfl, List.cons_ne_nil _ _⟩

theorem oneBind_at (bind : GoString) (i : Nat) (p : Position) :
    (oneBind bind).at (.field "HostConfig".toList :: .field "Binds".toList :: .item i :: p)
      = [Json.str bind][i]?.bind fun o => o.at p := by
  simp [oneBind]

theorem oneBind_mounts (bind : GoString) {a : Position} (ha : a ∈ Rewriter.containerConfig.mounts)
    (p : Position) : (oneBind bind).at (a ++ p) = none := by
  rcases List.mem_cons.mp ha with rfl | ha
  · rfl
  · obtain rfl := List.mem_singleton.mp ha
    rfl

theorem isSource_oneBind {bind : GoString} {x : Position}
    (h : Rewriter.IsSource .containerConfig (oneBind bind) x) :
    (oneBind bind).at x = some (.str bind) := by
  rcases h with ⟨a, ha, i, rfl, o, ho⟩ | ⟨a, ha, i, rfl, ho⟩
  · obtain rfl := List.mem_singleton.mp ha
    obtain ⟨v, hv, hvo⟩ := Option.bind_eq_some_iff.mp ((oneBind_at bind i []).symm.trans ho)
    obtain rfl := List.mem_singleton.mp (List.mem_of_getElem? hv)
    rw [ho, ← hvo, Json.at_nil]
  · exact nomatch (oneBind_mounts bind ha _).symm.trans ho

theorem plainAt_oneBind :
    PlainAt (Rewriter.IsSource .containerConfig (oneBind "/home:/data".toList))
      (oneBind "/home:/data".toList) := by
  intro x p ts hx _ hat
  have hbind : "/home:/data".toList = p ++ fields ts :=
    Json.str.inj (Option.some.inj ((isSource_oneBind hx).symm.trans hat))
  have hpre : p <+: "/home:/data".toList := hbind ▸ List.prefix_append p (fields ts)
  refine ⟨hbind ▸ by decide, fun hc => ?_, fun hc => ?_⟩
  · exact absurd (hc.trans hpre) (by decide)
  · exact absurd (hc.trans hpre) (by decide)

theorem request_prefixed_oneBind :
    ∃ bytes doc',
      (rewriteBody false oneBindCodec "/containers/create".toList "Ubuntu".toList
          (some ⟨oneBindText "/home:/data".toList, none⟩)).1 = .ok (.ok bytes) ∧
        oneBindCodec.marshal doc' = .ok bytes ∧
        SentUnderBase ubuntu.basePath (Rewriter.IsSource .containerConfig
          (oneBind "/home:/data".toList)) (oneBind "/home:/data".toList) doc' := by
  have hbytes : (rewriteBody false oneBindCodec "/containers/create".toList "Ubuntu".toList
      (some ⟨oneBindText "/home:/data".toList, none⟩)).1
      = .ok (.ok (oneBindText "/mnt/wsl/Ubuntu/home:/data".toList)) := by rfl
  obtain ⟨doc', hmarshal, hsent⟩ :=
    (request_prefixed ubuntu).2.2 oneBindCodec "/containers/create".toList
    .containerConfig _ _ _ (by decide) (.inl ⟨by decide, _, rfl, rfl⟩) hbytes
  exact ⟨_, doc', hbytes, hmarshal, hsent.mpr plainAt_oneBind⟩

/-- A directory of the client below `/mnt/host` is sent as a Windows path. -/
theorem request_not_prefixed :
    ¬ ∀ (D : DistroName) (p : GoString) (ts : List GoString), ':' ∉ p → "/".toList <+: p →
      mapPath false (p ++ fields ts) D.basePath = D.basePath ++ (p ++ fields ts) := by
  intro h
  have hsent := h ubuntu "/mnt/host/data".toList ["/data".toList] (by decide) (by decide)
  exact absurd hsent (by decide)

end ContainerDesktop.Rewrite
