import ContainerDesktop.PercentEncoding
import Mathlib.Data.List.Induction

/-!
# The URL of a request

The director of the single host proxy gives a request the host of the target and puts the
path and the query of the target before the ones of the request.  A path is kept decoded,
and next to it as it was written where the two differ: `%2F` is no slash.

`director_routes` says what the backend gets to see: the written path of the target and the
written path of the client with one slash between them, whichever of the two representations
they have, and the fields of both queries.
-/

namespace ContainerDesktop.ReverseProxy

open PercentEncoding

/-- The bytes of a URL. -/
abbrev UrlBytes := List UInt8

def slash : UInt8 := 47
def ampersand : UInt8 := 38

/-- The path of `OPTIONS *`. -/
def star : UrlBytes := [42]

/-- `url.URL`, as far as the director reads and writes it. -/
structure Url where
  scheme : UrlBytes
  host : UrlBytes
  path : UrlBytes
  rawPath : UrlBytes
  rawQuery : UrlBytes

/-- Letters, digits and `-_.~` -/
def isUnreserved (b : UInt8) : Bool :=
  97 ≤ b && b ≤ 122 || 65 ≤ b && b ≤ 90 || 48 ≤ b && b ≤ 57 || b == 45 || b == 95 || b == 46
    || b == 126

/-- What is not escaped in a path: the unreserved bytes and `$&+,/:;=@`, but not `?`. -/
def keepInPath (b : UInt8) : Bool :=
  isUnreserved b || b == 36 || b == 38 || b == 43 || b == 44 || b == 47 || b == 58 || b == 59
    || b == 61 || b == 64

/-- What `validEncoded` accepts: `!$&'()*+,;=:@`, brackets, `%`, and what is not escaped. -/
def validInPath (b : UInt8) : Bool :=
  b == 33 || b == 36 || b == 38 || b == 39 || b == 40 || b == 41 || b == 42 || b == 43
    || b == 44 || b == 59 || b == 61 || b == 58 || b == 64 || b == 91 || b == 93 || b == 37
    || keepInPath b

def validEncoded (s : UrlBytes) : Bool := s.all validInPath

def escapePath (s : UrlBytes) : UrlBytes := escape keepInPath s

/-- `EscapedPath`, which is the path that is sent. -/
def Url.escapedPath (u : Url) : UrlBytes :=
  if u.rawPath ≠ [] ∧ validEncoded u.rawPath = true ∧ unescape u.rawPath = some u.path
    then u.rawPath
  else if u.path = star then star
  else escapePath u.path

def hasSlashAtEnd (s : UrlBytes) : Bool := s.getLast? == some slash

def hasSlashAtStart (s : UrlBytes) : Bool := s.head? == some slash

def singleJoiningSlash (a b : UrlBytes) : UrlBytes :=
  if hasSlashAtEnd a ∧ hasSlashAtStart b then a ++ b.tail
  else if ¬ hasSlashAtEnd a ∧ ¬ hasSlashAtStart b then a ++ slash :: b
  else a ++ b

/-- `joinURLPath`, the path and the raw path. -/
def joinURLPath (a b : Url) : UrlBytes × UrlBytes :=
  if a.rawPath = [] ∧ b.rawPath = [] then (singleJoiningSlash a.path b.path, [])
  else
    let apath := a.escapedPath
    let bpath := b.escapedPath
    if hasSlashAtEnd apath ∧ hasSlashAtStart bpath then (a.path ++ b.path.tail, apath ++ bpath.tail)
    else if ¬ hasSlashAtEnd apath ∧ ¬ hasSlashAtStart bpath
      then (a.path ++ slash :: b.path, apath ++ slash :: bpath)
    else (a.path ++ b.path, apath ++ bpath)

/-- The director of `NewSingleHostReverseProxy`, for the URL. -/
def directorUrl (target url : Url) : Url where
  scheme := target.scheme
  host := target.host
  path := (joinURLPath target url).1
  rawPath := (joinURLPath target url).2
  rawQuery :=
    if target.rawQuery = [] ∨ url.rawQuery = [] then target.rawQuery ++ url.rawQuery
    else target.rawQuery ++ ampersand :: url.rawQuery

/-! ## Bytes -/

section Bytes

theorem keep_slash : keepInPath slash = true := by decide

theorem keep_percent : keepInPath percent = false := by decide

theorem valid_hexDigit : ∀ n : Fin 16, validInPath (hexDigit n) = true := by decide

theorem hexDigit_ne_slash : ∀ n : Fin 16, hexDigit n ≠ slash := by decide

theorem valid_of_keep {b : UInt8} (h : keepInPath b = true) : validInPath b = true := by
  rw [validInPath, h, Bool.or_true]

theorem validEncoded_append (s t : UrlBytes) :
    validEncoded (s ++ t) = (validEncoded s && validEncoded t) :=
  List.all_append

theorem valid_escapeByte (b : UInt8) : validEncoded (escapeByte keepInPath b) = true := by
  rw [escapeByte]
  split
  · rename_i hb
    rw [validEncoded, List.all_cons, valid_of_keep hb]
    rfl
  · have hlt : b.toNat < 256 := b.toNat_lt
    have hhigh := valid_hexDigit ⟨b.toNat / 16, by omega⟩
    have hlow := valid_hexDigit ⟨b.toNat % 16, by omega⟩
    have hpercent : validInPath percent = true := by decide
    simp only [validEncoded, List.all_cons, List.all_nil, hhigh, hlow, hpercent, Bool.and_true]

theorem valid_escapePath (s : UrlBytes) : validEncoded (escapePath s) = true := by
  induction s with
  | nil => rfl
  | cons b s ih =>
    rw [escapePath, escape_cons, validEncoded_append, valid_escapeByte]
    exact ih

/-- Escaping a byte neither makes a slash nor hides one. -/
theorem escapeByte_slash (b : UInt8) :
    hasSlashAtStart (escapeByte keepInPath b) = (b == slash) ∧
      hasSlashAtEnd (escapeByte keepInPath b) = (b == slash) := by
  rw [escapeByte]
  split
  · exact ⟨rfl, rfl⟩
  · rename_i hb
    have hne : (b == slash) = false := by
      rw [beq_eq_false_iff_ne]
      rintro rfl
      exact hb keep_slash
    have hlast := hexDigit_ne_slash ⟨b.toNat % 16, Nat.mod_lt _ (by decide)⟩
    refine ⟨hne ▸ rfl, ?_⟩
    rw [hne]
    show (some (hexDigit (b.toNat % 16)) == some slash) = false
    simpa using hlast

theorem slash_start_append {s : UrlBytes} (hs : s ≠ []) (t : UrlBytes) :
    hasSlashAtStart (s ++ t) = hasSlashAtStart s := by
  cases s with
  | nil => exact absurd rfl hs
  | cons b s => rfl

theorem slash_end_append (s : UrlBytes) {t : UrlBytes} (ht : t ≠ []) :
    hasSlashAtEnd (s ++ t) = hasSlashAtEnd t := by
  rw [hasSlashAtEnd, hasSlashAtEnd, List.getLast?_append_of_ne_nil s ht]

theorem escapeByte_ne_nil (b : UInt8) : escapeByte keepInPath b ≠ [] := by
  rw [escapeByte]
  split <;> exact List.cons_ne_nil _ _

theorem slash_start_escape (s : UrlBytes) : hasSlashAtStart (escapePath s) = hasSlashAtStart s := by
  cases s with
  | nil => rfl
  | cons b s =>
    rw [escapePath, escape_cons, slash_start_append (escapeByte_ne_nil b), (escapeByte_slash b).1]
    rfl

theorem slash_end_escape (s : UrlBytes) : hasSlashAtEnd (escapePath s) = hasSlashAtEnd s := by
  induction s using List.reverseRecOn with
  | nil => rfl
  | append_singleton s b =>
    rw [escapePath, escape_append, escape_cons, escape_nil, List.append_nil,
      slash_end_append _ (escapeByte_ne_nil b), slash_end_append _ (List.cons_ne_nil _ _),
      (escapeByte_slash b).2]
    rfl

end Bytes

/-! ## Paths that are sent -/

section Paths

variable {a b u : Url}

theorem escapedPath_of_rawPath_nil (hraw : u.rawPath = []) (hpath : u.path ≠ star) :
    u.escapedPath = escapePath u.path := by
  rw [Url.escapedPath, if_neg fun h => h.1 hraw, if_neg hpath]

/-- What is sent reads as the path, and has only bytes that can be sent. -/
theorem escapedPath_reads (u : Url) :
    unescape u.escapedPath = some u.path ∧ validEncoded u.escapedPath = true := by
  rw [Url.escapedPath]
  split
  · rename_i h
    exact ⟨h.2.2, h.2.1⟩
  · split
    · rename_i hstar
      rw [hstar]
      exact ⟨by decide, by decide⟩
    · exact ⟨unescape_escape keep_percent u.path, valid_escapePath u.path⟩

theorem eq_slash_cons {s : UrlBytes} (h : hasSlashAtStart s = true) : s = slash :: s.tail := by
  cases s with
  | nil => exact absurd h Bool.noConfusion
  | cons b s =>
    have hb : b = slash := beq_iff_eq.mp h
    rw [hb, List.tail_cons]

theorem tail_escape (s : UrlBytes) (h : hasSlashAtStart s = true) :
    escapePath s.tail = (escapePath s).tail := by
  rw [eq_slash_cons h, escapePath, escapePath, escape_cons, escapeByte, if_pos keep_slash]
  rfl

/-- Paths are joined as their escaped forms are. -/
theorem escape_singleJoiningSlash (s t : UrlBytes) :
    escapePath (singleJoiningSlash s t) = singleJoiningSlash (escapePath s) (escapePath t) := by
  have hslash : escapePath (slash :: t) = slash :: escapePath t := by
    rw [escapePath, escape_cons, escapeByte, if_pos keep_slash]
    rfl
  rw [singleJoiningSlash, singleJoiningSlash, slash_end_escape, slash_start_escape]
  split
  · rename_i h
    rw [← tail_escape t h.2]
    exact escape_append
  · split
    · rw [← hslash]
      exact escape_append
    · exact escape_append

theorem slash_mem_join (s t : UrlBytes) : slash ∈ singleJoiningSlash s t := by
  have hend : ∀ s : UrlBytes, hasSlashAtEnd s = true → slash ∈ s := fun s h =>
    List.mem_of_getLast? (beq_iff_eq.mp h)
  have hstart : ∀ s : UrlBytes, hasSlashAtStart s = true → slash ∈ s := fun s h =>
    List.mem_of_head? (beq_iff_eq.mp h)
  rw [singleJoiningSlash]
  split
  · rename_i h
    exact List.mem_append_left _ (hend s h.1)
  · split
    · exact List.mem_append_right _ List.mem_cons_self
    · rename_i hboth hnone
      by_cases hs : hasSlashAtEnd s = true
      · exact List.mem_append_left _ (hend s hs)
      · by_cases ht : hasSlashAtStart t = true
        · exact List.mem_append_right _ (hstart t ht)
        · exact absurd ⟨hs, ht⟩ hnone

theorem join_ne_nil (s t : UrlBytes) : singleJoiningSlash s t ≠ [] :=
  List.ne_nil_of_mem (slash_mem_join s t)

theorem join_ne_star (s t : UrlBytes) : singleJoiningSlash s t ≠ star := by
  intro h
  have hmem := slash_mem_join s t
  rw [h] at hmem
  exact absurd hmem (by decide)

theorem valid_join {s t : UrlBytes} (hs : validEncoded s = true) (ht : validEncoded t = true) :
    validEncoded (singleJoiningSlash s t) = true := by
  rw [singleJoiningSlash]
  split
  · rename_i h
    rw [eq_slash_cons h.2, validEncoded, List.all_cons, Bool.and_eq_true] at ht
    rw [validEncoded_append, hs]
    exact ht.2
  · split
    · have hslash : validEncoded (slash :: t) = true := by
        rw [validEncoded, List.all_cons, Bool.and_eq_true]
        exact ⟨by decide, ht⟩
      rw [validEncoded_append, hs, hslash]
      rfl
    · rw [validEncoded_append, hs, ht]
      rfl

theorem unescape_slash (s : UrlBytes) : unescape (slash :: s) = (unescape s).map (slash :: ·) :=
  unescape_cons (by decide)

/-- The raw path that `joinURLPath` makes is the joined one, and reads as the path that it makes. -/
theorem joinURLPath_raw (hraw : ¬ (a.rawPath = [] ∧ b.rawPath = [])) :
    (joinURLPath a b).2 = singleJoiningSlash a.escapedPath b.escapedPath ∧
      unescape (joinURLPath a b).2 = some (joinURLPath a b).1 := by
  have ha := (escapedPath_reads a).1
  have hb := (escapedPath_reads b).1
  rw [joinURLPath, if_neg hraw, singleJoiningSlash]
  dsimp only
  split
  · rename_i h
    refine ⟨rfl, unescape_append_some ha ?_⟩
    rw [eq_slash_cons h.2, unescape_slash] at hb
    obtain ⟨rest, hrest, hpath⟩ := Option.map_eq_some_iff.mp hb
    rw [← hpath]
    exact hrest
  · split
    · refine ⟨rfl, unescape_append_some ha ?_⟩
      rw [unescape_slash, hb]
      rfl
    · exact ⟨rfl, unescape_append_some ha hb⟩

/-- What is sent is joined with one slash. -/
theorem escapedPath_join (ha : a.path ≠ star) (hb : b.path ≠ star)
    (hpath : u.path = (joinURLPath a b).1) (hrawPath : u.rawPath = (joinURLPath a b).2) :
    u.escapedPath = singleJoiningSlash a.escapedPath b.escapedPath := by
  by_cases hraw : a.rawPath = [] ∧ b.rawPath = []
  · rw [joinURLPath, if_pos hraw] at hpath hrawPath
    have hstar : u.path ≠ star := by
      rw [hpath]
      exact join_ne_star _ _
    rw [escapedPath_of_rawPath_nil hrawPath hstar, hpath, escape_singleJoiningSlash,
      escapedPath_of_rawPath_nil hraw.1 ha, escapedPath_of_rawPath_nil hraw.2 hb]
  · obtain ⟨hjoin, hreads⟩ := joinURLPath_raw hraw
    have hvalid : validEncoded u.rawPath = true := by
      rw [hrawPath, hjoin]
      exact valid_join (escapedPath_reads a).2 (escapedPath_reads b).2
    have hnil : u.rawPath ≠ [] := by
      rw [hrawPath, hjoin]
      exact join_ne_nil _ _
    rw [Url.escapedPath, if_pos ⟨hnil, hvalid, by rw [hrawPath, hreads, hpath]⟩, hrawPath, hjoin]

end Paths

/-! ## The request of the backend -/

/-- The fields of a query. -/
def queryFields (query : UrlBytes) : List UrlBytes := (query.splitOn ampersand).filter (· ≠ [])

/-- What the backend gets of the URLs of the target and of the request. -/
structure Routes (target url backend : Url) : Prop where
  scheme : backend.scheme = target.scheme
  host : backend.host = target.host
  path : backend.escapedPath = singleJoiningSlash target.escapedPath url.escapedPath
  reads : unescape backend.escapedPath = some backend.path
  query : queryFields backend.rawQuery = queryFields target.rawQuery ++ queryFields url.rawQuery

section Routes

theorem queryFields_join (s t : UrlBytes) :
    queryFields (s ++ ampersand :: t) = queryFields s ++ queryFields t := by
  rw [queryFields, queryFields, queryFields, ← List.filter_append]
  congr 1
  induction s with
  | nil => rfl
  | cons b s ih =>
    rw [List.cons_append, List.splitOn_cons_eq_if_modifyHead,
      List.splitOn_cons_eq_if_modifyHead, ih]
    split
    · rfl
    · cases hs : s.splitOn ampersand with
      | nil => exact absurd hs (List.splitOn_ne_nil _ _)
      | cons x l => rfl

/-- **The backend gets what the client has written**, behind the path and the query of the
target. -/
theorem director_routes (target url : Url) (htarget : target.path ≠ star) (hurl : url.path ≠ star) :
    Routes target url (directorUrl target url) where
  scheme := rfl
  host := rfl
  path := escapedPath_join htarget hurl rfl rfl
  reads := (escapedPath_reads _).1
  query := by
    rw [directorUrl]
    dsimp only
    split
    · rename_i h
      rcases h with h | h
      · rw [h]
        rfl
      · rw [h, List.append_nil]
        exact (List.append_nil _).symm
    · exact queryFields_join _ _

/-- A target without a path, and a request with a slash that is none. -/
def daemonTarget : Url := ⟨[], [], [], [], []⟩

def encodedImage : Url := ⟨[], [], [47, 97, 47, 98], [47, 97, 37, 50, 70, 98], []⟩

theorem director_routes_encoded :
    (directorUrl daemonTarget encodedImage).escapedPath = [47, 97, 37, 50, 70, 98] ∧
    Routes daemonTarget encodedImage (directorUrl daemonTarget encodedImage) :=
  ⟨by decide, director_routes daemonTarget encodedImage (by decide) (by decide)⟩

end Routes

end ContainerDesktop.ReverseProxy
