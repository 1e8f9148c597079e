import Mathlib.Algebra.GroupWithZero.Nat

/-!
# Bind sources on both sides of the proxy

`mapPath` translates the source of a bind, `source:container path:options`,
between the client of the proxy and the daemon behind it.  The same function is
used on requests and on responses, and finds its direction in the prefix of the
source: `/mnt/host/` and `/mnt/wsl/` are daemon paths and are turned into client
paths, everything else is a client path.

A Go string that holds text is a list of characters here.  The separators and
prefixes are ASCII, so the byte offsets of the source are character offsets.
The base path is `/mnt/wsl/` and the name of the distribution for a proxy inside
WSL, and `/mnt/host` for the one on Windows.
-/

namespace ContainerDesktop.Rewrite

abbrev GoString := List Char

/-- `strings.Replace(s, from, to, -1)` for single characters. -/
def replaceAll (a b : Char) (s : GoString) : GoString := s.map fun c => if c = a then b else c

/-- `len(s)`, the number of bytes. -/
def goLen (s : GoString) : Nat := (s.map Char.utf8Size).sum

/-- `strings.Join(parts, sep)`. -/
def join (parts : List GoString) (sep : Char) : GoString := [sep].intercalate parts

def hostPrefix : GoString := "/mnt/host/".toList

def wslPrefix : GoString := "/mnt/wsl/".toList

theorem length_wslPrefix : wslPrefix.length = 9 := by decide

/-- `mapPath`.  `windows` is `rt.GOOS == "windows"`. -/
def mapPath (windows : Bool) (s path : GoString) : GoString :=
  let s := replaceAll '\\' '/' s
  let parts := s.splitOn ':'
  let source := parts.headD []
  if hostPrefix.isPrefixOf source then
    let parts2 := (source.drop 10).splitOn '/'
    let p := parts2.headD [] ++ ":/".toList ++ join parts2.tail '/'
    join (replaceAll '/' '\\' p :: parts.tail) ':'
  else if wslPrefix.isPrefixOf source then
    let parts2 := (source.drop 9).splitOn '/'
    join (join parts2.tail '/' :: parts.tail) ':'
  else if windows then
    if source ≠ "/".toList ∧ goLen source = 1 then
      path ++ "/".toList ++ source.map Char.toLower ++ join parts.tail ':'
    else s
  else if "/".toList.isPrefixOf s then path ++ s
  else s

/-! ## Text without separators -/

theorem replaceAll_of_not_mem {a b : Char} : ∀ {s : GoString}, a ∉ s → replaceAll a b s = s := by
  intro s
  induction s with
  | nil => intro _; rfl
  | cons c s ih =>
    intro h
    obtain ⟨hc, hs⟩ : a ≠ c ∧ a ∉ s := by simpa using h
    rw [replaceAll, List.map_cons, if_neg (Ne.symm hc)]
    exact congrArg (c :: ·) (ih hs)

theorem replaceAll_append (a b : Char) (s t : GoString) :
    replaceAll a b (s ++ t) = replaceAll a b s ++ replaceAll a b t := List.map_append

theorem join_splitOn (sep : Char) (s : GoString) : join (s.splitOn sep) sep = s :=
  List.intercalate_splitOn sep

/-- The trailing fields of a bind, each with the `:` before it. -/
def fields (ts : List GoString) : GoString := ts.flatMap (':' :: ·)

/-- The parts a bind has after its source.  A field with a `:` in it is several. -/
def fieldParts : List GoString → List GoString
  | [] => []
  | f :: ts => (f ++ fields ts).splitOn ':'

theorem splitOn_fields {p : GoString} (hp : ':' ∉ p) (ts : List GoString) :
    (p ++ fields ts).splitOn ':' = p :: fieldParts ts := by
  cases ts with
  | nil =>
    rw [fields, List.flatMap_nil, List.append_nil]
    exact List.splitOn_eq_singleton hp
  | cons f ts =>
    rw [fields, List.flatMap_cons, List.cons_append]
    exact List.splitOn_append_cons_self_of_not_mem hp _

theorem join_fieldParts (x : GoString) (ts : List GoString) :
    join (x :: fieldParts ts) ':' = x ++ fields ts := by
  cases ts with
  | nil =>
    rw [join, fieldParts, List.intercalate_singleton, fields, List.flatMap_nil, List.append_nil]
  | cons f ts =>
    rw [join, fieldParts, List.intercalate_cons_of_ne_nil (List.splitOn_ne_nil ':' _),
      List.intercalate_splitOn]
    simp [fields]

theorem not_mem_fields {ts : List GoString} (h : ∀ f ∈ ts, '\\' ∉ f) : '\\' ∉ fields ts := by
  intro hc
  obtain ⟨f, hf, hfc⟩ := List.mem_flatMap.mp hc
  rcases List.mem_cons.mp hfc with he | hm
  · exact absurd he (by decide)
  · exact h f hf hm

/-! ## Distributions and their paths -/

/-- The name of a WSL distribution. -/
structure DistroName where
  name : GoString
  ne_nil : name ≠ []
  slash : '/' ∉ name
  colon : ':' ∉ name
  backslash : '\\' ∉ name

/-- The base path of the proxy inside a distribution. -/
def DistroName.basePath (D : DistroName) : GoString := wslPrefix ++ D.name

/-- An absolute path without `:` and backslashes, without its first `/`. -/
structure PathRest where
  rest : GoString
  colon : ':' ∉ rest
  backslash : '\\' ∉ rest

/-- The absolute path. -/
def PathRest.path (p : PathRest) : GoString := '/' :: p.rest

theorem PathRest.not_mem_backslash (p : PathRest) {ts : List GoString} (ht : ∀ f ∈ ts, '\\' ∉ f) :
    '\\' ∉ p.path ++ fields ts := by
  intro hc
  rcases List.mem_append.mp hc with hp | hf
  · rcases List.mem_cons.mp hp with he | hr
    · exact absurd he (by decide)
    · exact p.backslash hr
  · exact not_mem_fields ht hf

theorem DistroName.not_mem_backslash (D : DistroName) : '\\' ∉ D.basePath := by
  intro hc
  rcases List.mem_append.mp hc with hw | hn
  · exact absurd hw (by decide)
  · exact D.backslash hn

theorem DistroName.colon_basePath_append (D : DistroName) (p : PathRest) :
    ':' ∉ D.basePath ++ p.path := by
  intro hc
  rcases List.mem_append.mp hc with hb | hp
  · rcases List.mem_append.mp hb with hw | hn
    · exact absurd hw (by decide)
    · exact D.colon hn
  · rcases List.mem_cons.mp hp with he | hr
    · exact absurd he (by decide)
    · exact p.colon hr

/-! ## The two directions -/

/-- A daemon path of a distribution loses the distribution and the `/` after it. -/
theorem mapPath_wsl (windows : Bool) (D : DistroName) (p : PathRest) {ts : List GoString}
    (ht : ∀ f ∈ ts, '\\' ∉ f) (path : GoString) :
    mapPath windows (D.basePath ++ (p.path ++ fields ts)) path = p.rest ++ fields ts := by
  have hs : '\\' ∉ D.basePath ++ (p.path ++ fields ts) := by
    intro hc
    rcases List.mem_append.mp hc with hb | hp
    · exact D.not_mem_backslash hb
    · exact p.not_mem_backslash ht hp
  have hparts : (D.basePath ++ (p.path ++ fields ts)).splitOn ':'
      = (D.basePath ++ p.path) :: fieldParts ts := by
    rw [← List.append_assoc]
    exact splitOn_fields (D.colon_basePath_append p) ts
  have hpre : wslPrefix <+: D.basePath ++ p.path := by
    rw [DistroName.basePath, List.append_assoc]
    exact List.prefix_append _ _
  have hwsl : wslPrefix.isPrefixOf (D.basePath ++ p.path) = true :=
    List.isPrefixOf_iff_prefix.mpr hpre
  -- two prefixes of one path are prefixes of each other, and these two are not
  have hhost : ¬ hostPrefix.isPrefixOf (D.basePath ++ p.path) = true := by
    intro h
    have hp : wslPrefix <+: hostPrefix :=
      List.prefix_of_prefix_length_le hpre (List.isPrefixOf_iff_prefix.mp h) (by decide)
    exact absurd hp (by decide)
  have hdrop : (D.basePath ++ p.path).drop 9 = D.name ++ '/' :: p.rest := by
    rw [DistroName.basePath, List.append_assoc, ← length_wslPrefix, List.drop_left, PathRest.path]
  have hsplit : (D.name ++ '/' :: p.rest).splitOn '/' = D.name :: p.rest.splitOn '/' :=
    List.splitOn_append_cons_self_of_not_mem D.slash _
  simp only [mapPath, replaceAll_of_not_mem hs, hparts, List.headD_cons, if_neg hhost, if_pos hwsl,
    hdrop, hsplit, List.tail_cons, join_splitOn]
  exact join_fieldParts _ _

/-- A client path is put under the base path. -/
theorem mapPath_client (p : PathRest) {ts : List GoString} (ht : ∀ f ∈ ts, '\\' ∉ f)
    (hhost : ¬ hostPrefix <+: p.path) (hwsl : ¬ wslPrefix <+: p.path) (path : GoString) :
    mapPath false (p.path ++ fields ts) path = path ++ (p.path ++ fields ts) := by
  have hcolon : ':' ∉ p.path := by
    intro hc
    rcases List.mem_cons.mp hc with he | hr
    · exact absurd he (by decide)
    · exact p.colon hr
  have hhost' : ¬ hostPrefix.isPrefixOf p.path = true :=
    fun h => hhost (List.isPrefixOf_iff_prefix.mp h)
  have hwsl' : ¬ wslPrefix.isPrefixOf p.path = true :=
    fun h => hwsl (List.isPrefixOf_iff_prefix.mp h)
  have habs : "/".toList.isPrefixOf (p.path ++ fields ts) = true := by
    rw [PathRest.path, List.cons_append]
    rfl
  simp only [mapPath, replaceAll_of_not_mem (p.not_mem_backslash ht), splitOn_fields hcolon,
    List.headD_cons, if_neg hhost', if_neg hwsl', Bool.false_eq_true, if_false, if_pos habs]

/-- **What the client sees after a round trip: its own path without the leading
`/`, never the bind it sent.** -/
theorem mapPath_mapPath (D : DistroName) (p : PathRest) (ts : List GoString)
    (ht : ∀ f ∈ ts, '\\' ∉ f) (hhost : ¬ hostPrefix <+: p.path) (hwsl : ¬ wslPrefix <+: p.path) :
    mapPath false (mapPath false (p.path ++ fields ts) D.basePath) D.basePath
        = (p.path ++ fields ts).tail ∧
      mapPath false (mapPath false (p.path ++ fields ts) D.basePath) D.basePath
        ≠ p.path ++ fields ts := by
  have h : mapPath false (mapPath false (p.path ++ fields ts) D.basePath) D.basePath
      = p.rest ++ fields ts := by
    rw [mapPath_client p ht hhost hwsl, mapPath_wsl false D p ht]
  refine ⟨h, ?_⟩
  intro he
  have hlen : (p.path ++ fields ts).length = (p.rest ++ fields ts).length := by rw [← h, he]
  simp [PathRest.path] at hlen

def ubuntu : DistroName where
  name := "Ubuntu".toList
  ne_nil := by decide
  slash := by decide
  colon := by decide
  backslash := by decide

def homeData : PathRest where
  rest := "home/me/data".toList
  colon := by decide
  backslash := by decide

theorem mapPath_mapPath_ubuntu :
    mapPath false (mapPath false "/home/me/data:/data:ro".toList "/mnt/wsl/Ubuntu".toList)
      "/mnt/wsl/Ubuntu".toList ≠ "/home/me/data:/data:ro".toList :=
  (mapPath_mapPath ubuntu homeData ["/data".toList, "ro".toList] (by decide) (by decide)
    (by decide)).2

/-- The bind `/home/me/data:/data` of a container created in `Ubuntu` comes back as
`home/me/data:/data`. -/
theorem mapPath_loses_slash :
    ¬ ∀ (D : DistroName) (p : PathRest) (ts : List GoString), (∀ f ∈ ts, '\\' ∉ f) →
      ¬ hostPrefix <+: p.path → ¬ wslPrefix <+: p.path →
      mapPath false (mapPath false (p.path ++ fields ts) D.basePath) D.basePath
        = p.path ++ fields ts := by
  intro h
  have hd := h ubuntu homeData ["/data".toList] (by decide) (by decide) (by decide)
  exact absurd hd (by decide)

/-! ## Two distributions -/

theorem mapPath_wsl_source (windows : Bool) (D : DistroName) (p : PathRest) (path : GoString) :
    mapPath windows (D.basePath ++ p.path) path = p.rest := by
  have hmap := mapPath_wsl windows D p (List.forall_mem_nil _) path
  rwa [fields, List.flatMap_nil, List.append_nil, List.append_nil] at hmap

/-- **Which sources of the daemon a client can tell apart.**  Of the distribution it sees nothing,
so two different sources stay different unless they are one path of two distributions. -/
theorem mapPath_distinguishes_iff (windows : Bool) (D D' : DistroName) (p p' : PathRest)
    (path : GoString) :
    (D.basePath ++ p.path ≠ D'.basePath ++ p'.path →
        mapPath windows (D.basePath ++ p.path) path ≠ mapPath windows
        (D'.basePath ++ p'.path) path) ↔
      (p.rest = p'.rest → D.name = D'.name) := by
  rw [mapPath_wsl_source, mapPath_wsl_source]
  constructor
  · intro h hrest
    refine Classical.byContradiction fun hname => ?_
    refine h (fun hsource => hname ?_) hrest
    have hpath : p.path = p'.path := congrArg ('/' :: ·) hrest
    rw [hpath, List.append_cancel_right_eq] at hsource
    exact List.append_cancel_left hsource
  · intro h hsource hrest
    refine hsource ?_
    rw [DistroName.basePath, DistroName.basePath, PathRest.path, PathRest.path, h hrest, hrest]

def debian : DistroName where
  name := "Debian".toList
  ne_nil := by decide
  slash := by decide
  colon := by decide
  backslash := by decide

/-- `/home/me/data` of `Ubuntu` and of `Debian`. -/
theorem mapPath_confuses :
    ¬ ∀ (windows : Bool) (D D' : DistroName) (p p' : PathRest) (path : GoString),
      D.basePath ++ p.path ≠ D'.basePath ++ p'.path →
      mapPath windows (D.basePath ++ p.path) path ≠ mapPath windows
      (D'.basePath ++ p'.path) path := by
  intro h
  have hdiffer := h false ubuntu debian homeData homeData ubuntu.basePath (by decide)
  rw [mapPath_wsl_source, mapPath_wsl_source] at hdiffer
  exact hdiffer rfl

end ContainerDesktop.Rewrite
