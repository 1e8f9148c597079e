import ContainerDesktop.Rewrite.MapPath
import Mathlib

/-!
# Windows paths

The proxy on Windows shares the drives with the daemon under `/mnt/host`, one
directory for each drive letter.  A Windows path may use both slashes, and its
drive is followed by the same `:` that separates the fields of a bind, so
`mapPath` takes it apart at `:` and puts it together without the `:` of the
drive.  On the way back it makes all slashes backslashes.

One path has three spellings here: as the client wrote it, as the daemon sees it
and as the client reads it when it inspects the container.
-/

namespace ContainerDesktop.Rewrite

inductive Slash where
  | forward
  | back
  deriving DecidableEq

def Slash.char : Slash → Char
  | forward => '/'
  | back => '\\'

/-- What stands between two slashes of a path. -/
structure Segment where
  text : GoString
  colon : ':' ∉ text
  slash : '/' ∉ text
  backslash : '\\' ∉ text

/-- The segments of a path with the slashes between them. -/
structure SlashedPath where
  first : Segment
  others : List (Slash × Segment)

namespace SlashedPath

/-- The segments with the slashes as they were written. -/
def written (r : SlashedPath) : GoString :=
  r.first.text ++ r.others.flatMap fun o => o.1.char :: o.2.text

def texts (r : SlashedPath) : List GoString := r.first.text :: r.others.map fun o => o.2.text

/-- The segments joined by one kind of slash. -/
def joined (r : SlashedPath) (slash : Slash) : GoString := join r.texts slash.char

theorem joined_eq (r : SlashedPath) (slash : Slash) :
    r.joined slash = r.first.text ++ r.others.flatMap fun o => slash.char :: o.2.text := by
  obtain ⟨first, others⟩ := r
  induction others generalizing first with
  | nil => simp [joined, texts, join]
  | cons o others ih =>
    have hrest : join (o.2.text :: others.map fun o => o.2.text) slash.char
        = o.2.text ++ others.flatMap fun o => slash.char :: o.2.text := ih o.2
    show join (first.text :: o.2.text :: others.map fun o => o.2.text) slash.char = _
    rw [join, List.intercalate_cons_cons, ← join, hrest]
    simp

theorem not_mem_text {r : SlashedPath} {c : Char} (hc : ∀ g : Segment, c ∉ g.text) :
    ∀ x ∈ r.texts, c ∉ x := by
  intro x hx
  rcases List.mem_cons.mp hx with rfl | hx
  · exact hc r.first
  · obtain ⟨o, -, rfl⟩ := List.mem_map.mp hx
    exact hc o.2

theorem not_mem_joined {r : SlashedPath} {c : Char} {slash : Slash} (hc : ∀ g : Segment, c ∉ g.text)
    (hs : slash.char ≠ c) : c ∉ r.joined slash := by
  intro h
  rw [joined_eq] at h
  rcases List.mem_append.mp h with hf | ho
  · exact hc r.first hf
  · obtain ⟨o, -, ho⟩ := List.mem_flatMap.mp ho
    rcases List.mem_cons.mp ho with he | ht
    · exact hs he.symm
    · exact hc o.2 ht

end SlashedPath

theorem replaceAll_cons (a b c : Char) (s : GoString) :
    replaceAll a b (c :: s) = (if c = a then b else c) :: replaceAll a b s := rfl

theorem replaceAll_slash (slash : Slash) (s : GoString) :
    replaceAll '\\' '/' (slash.char :: s) = '/' :: replaceAll '\\' '/' s := by
  cases slash <;> rfl

/-- The first thing `mapPath` does makes every mixture of slashes the same. -/
theorem SlashedPath.replaceAll_written (r : SlashedPath) :
    replaceAll '\\' '/' r.written = r.joined .forward := by
  rw [joined_eq, written, replaceAll_append, replaceAll_of_not_mem r.first.backslash]
  refine congrArg (r.first.text ++ ·) ?_
  induction r.others with
  | nil => rfl
  | cons o others ih =>
    rw [List.flatMap_cons, List.flatMap_cons, replaceAll_append, replaceAll_slash,
      replaceAll_of_not_mem o.2.backslash, ih]
    rfl

theorem SlashedPath.replaceAll_joined (r : SlashedPath) :
    replaceAll '/' '\\' (r.joined .forward) = r.joined .back := by
  rw [joined_eq, joined_eq, replaceAll_append, replaceAll_of_not_mem r.first.slash]
  refine congrArg (r.first.text ++ ·) ?_
  induction r.others with
  | nil => rfl
  | cons o others ih =>
    rw [List.flatMap_cons, List.flatMap_cons, replaceAll_append, replaceAll_cons,
      replaceAll_of_not_mem o.2.slash, ih]
    rfl

/-- A path on a drive. -/
structure DrivePath where
  drive : Char
  letter : drive.isAlpha = true
  sep : Slash
  rest : SlashedPath

namespace DrivePath

/-- The path as the client wrote it. -/
def client (p : DrivePath) : GoString := p.drive :: ':' :: p.sep.char :: p.rest.written

/-- The path in the distribution of the daemon. -/
def daemon (p : DrivePath) : GoString :=
  hostPrefix ++ p.drive.toLower :: '/' :: p.rest.joined .forward

/-- The path that comes back to the client. -/
def inspected (p : DrivePath) : GoString :=
  p.drive.toLower :: ':' :: '\\' :: p.rest.joined .back

/-! ## Letters -/

theorem ne_of_isAlpha {c x : Char} (hc : c.isAlpha = true) (hx : x.isAlpha = false) : c ≠ x := by
  intro he
  rw [he, hx] at hc
  exact absurd hc (by decide)

theorem goLen_letter {c : Char} (hc : c.isAlpha = true) : goLen [c] = 1 := by
  have hv : c.val ≤ 127 := by
    simp only [Char.isAlpha, Char.isUpper, Char.isLower, Bool.or_eq_true, Bool.and_eq_true,
      decide_eq_true_eq, UInt32.le_iff_toNat_le, ge_iff_le] at hc ⊢
    simp only [UInt32.reduceToNat, Char.reduceVal] at hc ⊢
    omega
  have hsize : c.utf8Size = 1 := if_pos hv
  simp [goLen, hsize]

theorem hostPrefix_eq : hostPrefix = "/mnt/host".toList ++ "/".toList := by decide

theorem length_hostPrefix : hostPrefix.length = 10 := by decide

theorem not_isPrefixOf_singleton {s : GoString} (hs : 1 < s.length) (c : Char) :
    s.isPrefixOf [c] = false := by
  rw [Bool.eq_false_iff]
  intro h
  have hle : s.length ≤ 1 := (List.isPrefixOf_iff_prefix.mp h).length_le
  omega

/-- The path after a request does not depend on the case of the drive letter. -/
def lower (p : DrivePath) : DrivePath where
  drive := p.drive.toLower
  letter := (Char.isAlpha_toLower_eq_isAlpha p.drive).trans p.letter
  sep := .back
  rest := ⟨p.rest.first, p.rest.others.map fun o => (.back, o.2)⟩

theorem lower_client (p : DrivePath) : p.lower.client = p.inspected := by
  rw [inspected, SlashedPath.joined_eq, client, lower, SlashedPath.written]
  simp [Slash.char, List.flatMap_map]

theorem lower_texts (p : DrivePath) : p.lower.rest.texts = p.rest.texts := by
  simp [SlashedPath.texts, lower]

theorem lower_daemon (p : DrivePath) : p.lower.daemon = p.daemon := by
  rw [daemon, daemon, SlashedPath.joined, SlashedPath.joined, lower_texts]
  exact congrArg (fun c => hostPrefix ++ c :: '/' :: join p.rest.texts Slash.forward.char)
    (Char.toLower_toLower_eq_toLower p.drive)

/-! ## The two directions -/

theorem mapPath_client (p : DrivePath) {ts : List GoString} (ht : ∀ f ∈ ts, '\\' ∉ f) :
    mapPath true (p.client ++ fields ts) "/mnt/host".toList = p.daemon ++ fields ts := by
  have hcolon : ':' ∉ [p.drive] := by
    intro h
    exact ne_of_isAlpha p.letter (by decide : ':'.isAlpha = false) (List.mem_singleton.mp h).symm
  have hback : p.drive ≠ '\\' := ne_of_isAlpha p.letter (by decide)
  have hslash : [p.drive] ≠ "/".toList := by
    intro he
    exact ne_of_isAlpha p.letter (by decide : '/'.isAlpha = false) (List.cons.inj he).1
  have hs : replaceAll '\\' '/' (p.client ++ fields ts)
      = [p.drive] ++ fields (('/' :: p.rest.joined .forward) :: ts) := by
    rw [client, replaceAll_append, replaceAll_cons, replaceAll_cons, replaceAll_slash,
      p.rest.replaceAll_written, replaceAll_of_not_mem (not_mem_fields ht), if_neg hback,
      if_neg (by decide)]
    simp [fields]
  have hjoin : join (fieldParts (('/' :: p.rest.joined .forward) :: ts)) ':'
      = '/' :: p.rest.joined .forward ++ fields ts := join_splitOn ':' _
  have hhost : hostPrefix.isPrefixOf [p.drive] = false :=
    not_isPrefixOf_singleton (by decide) p.drive
  have hwsl : wslPrefix.isPrefixOf [p.drive] = false := not_isPrefixOf_singleton (by decide) p.drive
  simp only [mapPath, hs, splitOn_fields hcolon, List.headD_cons, List.tail_cons, hhost, hwsl,
    Bool.false_eq_true, if_false, if_true, if_pos (And.intro hslash (goLen_letter p.letter)), hjoin]
  rw [daemon, hostPrefix_eq]
  simp only [List.map_cons, List.map_nil, List.append_assoc, List.cons_append, List.nil_append]

theorem not_mem_daemon (p : DrivePath) {c : Char} (hhost : c ∉ hostPrefix)
    (hc : c.isAlpha = false) (hslash : '/' ≠ c) (hg : ∀ g : Segment, c ∉ g.text) :
    c ∉ p.daemon := by
  intro h
  rcases List.mem_append.mp h with hh | hd
  · exact hhost hh
  · rcases List.mem_cons.mp hd with he | hr
    · exact ne_of_isAlpha p.lower.letter hc he.symm
    · rcases List.mem_cons.mp hr with he | hj
      · exact hslash he.symm
      · exact SlashedPath.not_mem_joined hg (show Slash.forward.char ≠ c from hslash) hj

theorem splitOn_drop_daemon (p : DrivePath) :
    (p.daemon.drop 10).splitOn '/' = [p.drive.toLower] :: p.rest.texts := by
  have hdrop : p.daemon.drop 10 = [p.drive.toLower] ++ '/' :: p.rest.joined .forward := by
    rw [daemon, ← length_hostPrefix, List.drop_left]
    rfl
  have hslash : '/' ∉ [p.drive.toLower] := by
    intro h
    exact ne_of_isAlpha p.lower.letter (by decide : '/'.isAlpha = false)
      (List.mem_singleton.mp h).symm
  have htexts : (p.rest.joined .forward).splitOn '/' = p.rest.texts :=
    List.splitOn_intercalate '/' (SlashedPath.not_mem_text Segment.slash) (List.cons_ne_nil _ _)
  rw [hdrop, List.splitOn_append_cons_self_of_not_mem hslash, htexts]

theorem mapPath_daemon (p : DrivePath) {ts : List GoString} (ht : ∀ f ∈ ts, '\\' ∉ f)
    (windows : Bool) (path : GoString) :
    mapPath windows (p.daemon ++ fields ts) path = p.inspected ++ fields ts := by
  have hcolon : ':' ∉ p.daemon :=
    p.not_mem_daemon (by decide) (by decide) (by decide) Segment.colon
  have hback : '\\' ∉ p.daemon ++ fields ts := by
    intro h
    rcases List.mem_append.mp h with hp | hf
    · exact p.not_mem_daemon (by decide) (by decide) (by decide) Segment.backslash hp
    · exact not_mem_fields ht hf
  have hhost : hostPrefix.isPrefixOf p.daemon = true :=
    List.isPrefixOf_iff_prefix.mpr (List.prefix_append _ _)
  have hdrive : p.drive.toLower ≠ '/' := ne_of_isAlpha p.lower.letter (by decide)
  have hsource : replaceAll '/' '\\' ([p.drive.toLower] ++ ":/".toList ++ join p.rest.texts '/')
      = p.inspected := by
    rw [inspected, ← p.rest.replaceAll_joined, List.append_assoc, List.singleton_append,
      replaceAll_cons, if_neg hdrive, replaceAll_append]
    rfl
  simp only [mapPath, replaceAll_of_not_mem hback, splitOn_fields hcolon,
    List.headD_cons, if_pos hhost, p.splitOn_drop_daemon, List.tail_cons, hsource]
  exact join_fieldParts _ _

theorem mapPath_inspected (p : DrivePath) {ts : List GoString} (ht : ∀ f ∈ ts, '\\' ∉ f) :
    mapPath true (p.inspected ++ fields ts) "/mnt/host".toList = p.daemon ++ fields ts := by
  rw [← lower_client, mapPath_client p.lower ht, lower_daemon]

/-- The three spellings of a path in turn, with the fields of a bind after them. -/
structure RoundTrip (p : DrivePath) (ts : List GoString) : Prop where
  request : mapPath true (p.client ++ fields ts) "/mnt/host".toList
    = "/mnt/host/".toList ++ p.drive.toLower :: '/' :: p.rest.joined .forward ++ fields ts
  response : mapPath true
      ("/mnt/host/".toList ++ p.drive.toLower :: '/' :: p.rest.joined .forward ++ fields ts)
      "/mnt/host".toList
    = p.drive.toLower :: ':' :: '\\' :: p.rest.joined .back ++ fields ts
  again : mapPath true (p.drive.toLower :: ':' :: '\\' :: p.rest.joined .back ++ fields ts)
      "/mnt/host".toList
    = "/mnt/host/".toList ++ p.drive.toLower :: '/' :: p.rest.joined .forward ++ fields ts

theorem roundTrip (p : DrivePath) {ts : List GoString} (ht : ∀ f ∈ ts, '\\' ∉ f) :
    p.RoundTrip ts where
  request := p.mapPath_client ht
  response := p.mapPath_daemon ht true "/mnt/host".toList
  again := p.mapPath_inspected ht

/-- **A bind that was inspected and submitted again names the daemon path it named
before, and so does the source of a mount.** -/
theorem mapPath_resubmit (p : DrivePath) (ts : List GoString) (ht : ∀ f ∈ ts, '\\' ∉ f) :
    p.RoundTrip ts ∧ p.RoundTrip [] :=
  ⟨p.roundTrip ht, p.roundTrip (List.forall_mem_nil _)⟩

def users : Segment where
  text := "Users".toList
  colon := by decide
  slash := by decide
  backslash := by decide

def data : Segment where
  text := "data".toList
  colon := by decide
  slash := by decide
  backslash := by decide

def usersData : DrivePath where
  drive := 'C'
  letter := by decide
  sep := .back
  rest := ⟨users, [(.forward, data)]⟩

example : usersData.client = "C:\\Users/data".toList := by decide

theorem mapPath_resubmit_usersData :
    usersData.RoundTrip ["/data".toList, "ro".toList] ∧ usersData.RoundTrip [] :=
  mapPath_resubmit usersData ["/data".toList, "ro".toList] (by decide)

end DrivePath

end ContainerDesktop.Rewrite
