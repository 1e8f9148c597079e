import ContainerDesktop.Regex
import ContainerDesktop.Rewrite.Rewriters

/-!
# Which rewriter a path selects

`getRewriter` tries the rows of `rewriteMappings` in order and takes the first
whose pattern matches somewhere in the URL path.  The patterns are those of the
source, and every one of them can only match from a `/` on.  A path is therefore
read by its segments: `containersJson_iff` and the lemmas after it say of each
row which segments it needs, one after the other.

`getRewriter_iff` then goes through the endpoints of the Docker API and says for
each of them, for every version prefix and every id, exactly when the row
selected is the intended one.
-/

namespace ContainerDesktop.Rewrite

open Regex

/-! ## The table -/

/-- `.`, which does not match a line feed. -/
def dot : Regex Char := char (· ≠ '\n')

/-- `/.*?` -/
def slashAny : Regex Char := seq (lit "/".toList) (star dot)

structure RewriteMapItem where
  pattern : Regex Char
  rewriter : Rewriter

/-- `(/.*?)?/containers(/.*?)?/json` -/
def containersJson : Regex Char :=
  seq (opt slashAny) (seq (lit "/containers".toList) (seq (opt slashAny) (lit "/json".toList)))

/-- `(/.*?)?/containers/create` -/
def containersCreate : Regex Char := seq (opt slashAny) (lit "/containers/create".toList)

/-- `(/.*?)?/services/create` -/
def servicesCreate : Regex Char := seq (opt slashAny) (lit "/services/create".toList)

/-- `(/.*?)?/services/(/.*?)/update` -/
def servicesUpdate : Regex Char :=
  seq (opt slashAny) (seq (lit "/services/".toList) (seq slashAny (lit "/update".toList)))

/-- `(/.*?)?/services(/.*?)$` -/
def services : Regex Char :=
  seq (opt slashAny) (seq (lit "/services".toList) (seq slashAny textEnd))

/-- `(/.*?)?/tasks(/.*?)?` -/
def tasks : Regex Char := seq (opt slashAny) (seq (lit "/tasks".toList) (opt slashAny))

def rewriteMappings : List RewriteMapItem :=
  [⟨containersJson, .containerSummary⟩,
    ⟨containersCreate, .containerConfig⟩,
    ⟨servicesCreate, .serviceSpec⟩,
    ⟨servicesUpdate, .serviceSpec⟩,
    ⟨services, .service⟩,
    ⟨tasks, .task⟩]

def getRewriter (urlPath : GoString) : Option Rewriter :=
  (rewriteMappings.find? fun item => item.pattern.search urlPath).map (·.rewriter)

/-! ## Paths and their segments -/

/-- The path with these segments, each with the `/` before it. -/
def pathOf (segments : List GoString) : GoString := segments.flatMap ('/' :: ·)

/-- No segment has a `/` in it. -/
def Segments (segments : List GoString) : Prop := ∀ g ∈ segments, '/' ∉ g

theorem pathOf_cons (g : GoString) (gs : List GoString) :
    pathOf (g :: gs) = '/' :: (g ++ pathOf gs) := by
  rw [pathOf, List.flatMap_cons, List.cons_append]
  rfl

theorem pathOf_append (gs hs : List GoString) : pathOf (gs ++ hs) = pathOf gs ++ pathOf hs :=
  List.flatMap_append

theorem pathOf_eq_cons {gs : List GoString} {c : Char} {x : GoString} (h : pathOf gs = c :: x) :
    c = '/' ∧ ∃ g rest, gs = g :: rest ∧ x = g ++ pathOf rest := by
  cases gs with
  | nil => exact absurd h (by simp [pathOf])
  | cons g rest =>
    rw [pathOf_cons] at h
    obtain ⟨hc, hx⟩ := List.cons.inj h
    exact ⟨hc.symm, g, rest, rfl, hx.symm⟩

/-- A text up to the first `/` is the first segment. -/
theorem append_pathOf_eq :
    ∀ {a g : GoString} {gs : List GoString} {x : GoString}, '/' ∉ a → '/' ∉ g →
    (g ++ pathOf gs = a ++ '/' :: x ↔ g = a ∧ pathOf gs = '/' :: x) := by
  intro a
  induction a with
  | nil =>
    intro g gs x _ hg
    cases g with
    | nil => exact ⟨fun h => ⟨rfl, h⟩, fun h => h.2⟩
    | cons c g =>
      refine ⟨fun h => ?_, fun h => absurd h.1 (List.cons_ne_nil c g)⟩
      exact absurd ((List.cons.inj h).1 ▸ List.mem_cons_self) hg
  | cons c a ih =>
    intro g gs x ha hg
    cases g with
    | nil =>
      refine ⟨fun h => ?_, fun h => absurd h.1.symm (List.cons_ne_nil c a)⟩
      exact absurd ((pathOf_eq_cons h).1 ▸ List.mem_cons_self) ha
    | cons d g =>
      rw [List.cons_append, List.cons_append, List.cons_eq_cons, List.cons_eq_cons, and_assoc,
        ih (fun h => ha (List.mem_cons_of_mem c h)) (fun h => hg (List.mem_cons_of_mem d h))]

/-- A text without `/` at the beginning of a segment and what follows it is a
prefix of the segment. -/
theorem prefix_append_pathOf : ∀ {a g : GoString} {gs : List GoString}, '/' ∉ a →
    (a <+: g ++ pathOf gs ↔ a <+: g) := by
  intro a
  induction a with
  | nil => intro g gs _; exact ⟨fun _ => List.nil_prefix, fun _ => List.nil_prefix⟩
  | cons c a ih =>
    intro g gs ha
    have ha' : '/' ∉ a := fun h => ha (List.mem_cons_of_mem c h)
    cases g with
    | nil =>
      refine ⟨fun ⟨t, ht⟩ => ?_, fun h => h.trans (List.prefix_append _ _)⟩
      exact absurd ((pathOf_eq_cons ht.symm).1 ▸ List.mem_cons_self) ha
    | cons d g => rw [List.cons_append, List.cons_prefix_cons, List.cons_prefix_cons, ih ha']

/-- **A `/` of a path begins a segment.** -/
theorem pathOf_eq_append : ∀ {gs : List GoString} {w x : GoString}, Segments gs →
    (pathOf gs = w ++ '/' :: x ↔
      ∃ before g after, gs = before ++ g :: after ∧ w = pathOf before ∧ x = g ++ pathOf after) := by
  intro gs
  induction gs with
  | nil =>
    intro w x _
    refine ⟨fun h => ?_, fun ⟨before, g, after, h, _⟩ => ?_⟩
    · exact absurd h.symm (by simp [pathOf])
    · exact absurd h.symm (by simp)
  | cons g gs ih =>
    intro w x hs
    have hg : '/' ∉ g := hs g List.mem_cons_self
    have hs' : Segments gs := fun h hh => hs h (List.mem_cons_of_mem g hh)
    refine ⟨fun h => ?_, fun ⟨before, h, after, he, hw, hx⟩ => ?_⟩
    · rw [pathOf_cons] at h
      cases w with
      | nil => exact ⟨[], g, gs, rfl, rfl, (List.cons.inj h).2.symm⟩
      | cons c w =>
        obtain ⟨hc, hrest⟩ := List.cons.inj h
        -- the `/` is not in `g`, so `w` begins with `g`
        obtain ⟨w', hw', hgs⟩ : ∃ w', w = g ++ w' ∧ pathOf gs = w' ++ '/' :: x := by
          rcases List.append_eq_append_iff.mp hrest with h' | ⟨k, hk, hkx⟩
          · exact h'
          · cases k with
            | nil => exact ⟨[], by rw [hk, List.append_nil, List.append_nil], hkx.symm⟩
            | cons d k =>
              have hd : '/' ∈ g := by
                rw [hk, (List.cons.inj hkx).1]
                exact List.mem_append_right _ List.mem_cons_self
              exact absurd hd hg
        obtain ⟨before, h', after, he, hb, hx⟩ := (ih hs').mp hgs
        exact ⟨g :: before, h', after, by rw [he, List.cons_append],
          by rw [hw', hb, ← hc, pathOf_cons], hx⟩
    · rw [he, hw, hx, pathOf_append, pathOf_cons]

/-! ## Rows by segments -/

/-- Some segment is related by `Q` to the segments after it. -/
def Somewhere (Q : GoString → List GoString → Prop) : List GoString → Prop
  | [] => False
  | g :: gs => Q g gs ∨ Somewhere Q gs

theorem somewhere_iff {Q : GoString → List GoString → Prop} : ∀ {gs : List GoString},
    Somewhere Q gs ↔ ∃ before g after, gs = before ++ g :: after ∧ Q g after := by
  intro gs
  induction gs with
  | nil => exact ⟨False.elim, fun ⟨before, g, after, h, _⟩ => absurd h.symm (by simp)⟩
  | cons h gs ih =>
    rw [Somewhere, ih]
    refine ⟨fun hq => ?_, fun ⟨before, g, after, he, hq⟩ => ?_⟩
    · rcases hq with hq | ⟨before, g, after, he, hq⟩
      · exact ⟨[], h, gs, rfl, hq⟩
      · exact ⟨h :: before, g, after, by rw [he, List.cons_append], hq⟩
    · cases before with
      | nil =>
        obtain ⟨rfl, rfl⟩ := List.cons.inj he
        exact .inl hq
      | cons b before =>
        exact .inr ⟨before, g, after, (List.cons.inj he).2, hq⟩

/-- **A search for something that begins with `/` looks at the segments.**  `Q` is
what it needs of a segment and of those after it. -/
theorem found_pathOf {r : Regex Char} {Q : GoString → List GoString → Prop}
    (hr : ∀ {s t}, Matches r s t → ∃ x, s = '/' :: x)
    (hQ : ∀ {g after}, '/' ∉ g → Segments after →
      ((∃ t, Matches r ('/' :: (g ++ pathOf after)) t) ↔ Q g after))
    {gs : List GoString} (hs : Segments gs) : Found r (pathOf gs) ↔ Somewhere Q gs := by
  have hparts : ∀ {before g after}, gs = before ++ g :: after → '/' ∉ g ∧ Segments after := by
    intro before g after he
    refine ⟨hs g (he ▸ List.mem_append_right _ List.mem_cons_self), fun h hh => ?_⟩
    exact hs h (he ▸ List.mem_append_right _ (List.mem_cons_of_mem g hh))
  rw [somewhere_iff]
  refine ⟨fun ⟨w, s, t, he, hm⟩ => ?_, fun ⟨before, g, after, he, hq⟩ => ?_⟩
  · obtain ⟨x, rfl⟩ := hr hm
    obtain ⟨before, g, after, hgs, -, hx⟩ := (pathOf_eq_append hs).mp he
    obtain ⟨hg, hafter⟩ := hparts hgs
    exact ⟨before, g, after, hgs, (hQ hg hafter).mp ⟨t, hx ▸ hm⟩⟩
  · obtain ⟨hg, hafter⟩ := hparts he
    obtain ⟨t, hm⟩ := (hQ hg hafter).mpr hq
    exact ⟨pathOf before, _, t, by rw [he, pathOf_append, pathOf_cons], hm⟩

theorem matches_slashAny {s t : GoString} :
    Matches slashAny s t ↔ ∃ w, s = '/' :: (w ++ t) ∧ '\n' ∉ w := by
  have hdot : ∀ w : GoString, (∀ a ∈ w, decide (a ≠ '\n') = true) ↔ '\n' ∉ w := by
    intro w
    refine ⟨fun h hn => absurd rfl (of_decide_eq_true (h _ hn)), fun h a ha => decide_eq_true ?_⟩
    exact fun he => h (he ▸ ha)
  rw [slashAny, matches_seq]
  refine ⟨fun ⟨u, hl, hd⟩ => ?_, fun ⟨w, hs, hw⟩ => ?_⟩
  · obtain ⟨w, hu, hw⟩ := matches_star_char.mp hd
    exact ⟨w, by rw [matches_lit.mp hl, hu]; rfl, (hdot w).mp hw⟩
  · exact ⟨w ++ t, matches_lit.mpr hs, matches_star_char.mpr ⟨w, rfl, (hdot w).mpr hw⟩⟩

/-- `(/.*?)?` takes nothing, or a text without a line feed that begins with `/`. -/
theorem matches_opt_slashAny {s t : GoString} :
    Matches (opt slashAny) s t ↔
      ∃ y, s = y ++ t ∧ '\n' ∉ y ∧ (y = [] ∨ ∃ w, y = '/' :: w) := by
  rw [matches_opt, matches_slashAny]
  refine ⟨fun h => ?_, fun ⟨y, hs, hn, hy⟩ => ?_⟩
  · rcases h with ⟨w, hs, hw⟩ | he
    · refine ⟨'/' :: w, hs, ?_, .inr ⟨w, rfl⟩⟩
      intro hc
      rcases List.mem_cons.mp hc with he | hm
      · exact absurd he (by decide)
      · exact hw hm
    · exact ⟨[], he.symm, List.not_mem_nil, .inl rfl⟩
  · rcases hy with rfl | ⟨w, rfl⟩
    · exact .inr hs.symm
    · exact .inl ⟨w, hs, fun h => hn (List.mem_cons_of_mem _ h)⟩

theorem begins_lit {l s t : GoString} {c : Char} (h : Matches (lit (c :: l)) s t) :
    ∃ x, s = c :: x := ⟨l ++ t, matches_lit.mp h⟩

theorem begins_seq_lit {l s t : GoString} {c : Char} {r : Regex Char}
    (h : Matches (seq (lit (c :: l)) r) s t) : ∃ x, s = c :: x := by
  obtain ⟨u, hl, -⟩ := matches_seq.mp h
  exact begins_lit hl

/-- A literal at a segment. -/
theorem lit_cons_pathOf {l g : GoString} {gs : List GoString} {t : GoString} :
    Matches (lit ('/' :: l)) ('/' :: (g ++ pathOf gs)) t ↔ g ++ pathOf gs = l ++ t := by
  rw [matches_lit, List.cons_append, List.cons_eq_cons]
  exact and_iff_right rfl

/-! ### `containers/create` and `services/create` -/

/-- The segment `a`, and the next one begins with `create`. -/
def CreateAfter (a g : GoString) (after : List GoString) : Prop :=
  g = a ∧ ∃ h rest, after = h :: rest ∧ "create".toList <+: h

theorem found_create {a : GoString} (ha : '/' ∉ a) {gs : List GoString} (hs : Segments gs) :
    Found (lit ('/' :: (a ++ "/create".toList))) (pathOf gs) ↔ Somewhere (CreateAfter a) gs := by
  refine found_pathOf begins_lit (fun {g after} hg hafter => ?_) hs
  refine ⟨fun ⟨t, hm⟩ => ?_, fun ⟨hga, h, rest, hgs, ⟨x, hx⟩⟩ => ?_⟩
  · have he : g ++ pathOf after = a ++ '/' :: ("create".toList ++ t) := by
      rw [lit_cons_pathOf.mp hm, List.append_assoc]
      rfl
    obtain ⟨hga, hp⟩ := (append_pathOf_eq ha hg).mp he
    obtain ⟨-, h, rest, hgs, hx⟩ := pathOf_eq_cons hp
    exact ⟨hga, h, rest, hgs, (prefix_append_pathOf (by decide)).mp ⟨t, hx⟩⟩
  · refine ⟨x ++ pathOf rest, lit_cons_pathOf.mpr ?_⟩
    rw [hga, hgs, pathOf_cons, ← hx, List.append_assoc, List.append_assoc]
    rfl

theorem containersCreate_iff {gs : List GoString} (hs : Segments gs) :
    containersCreate.search (pathOf gs) = true ↔ Somewhere
      (CreateAfter "containers".toList) gs := by
  have hl : "/containers/create".toList = '/'
    :: ("containers".toList ++ "/create".toList) := by decide
  rw [search_iff, containersCreate, found_opt_seq, hl]
  exact found_create (by decide) hs

theorem servicesCreate_iff {gs : List GoString} (hs : Segments gs) :
    servicesCreate.search (pathOf gs) = true ↔ Somewhere (CreateAfter "services".toList) gs := by
  have hl : "/services/create".toList = '/' :: ("services".toList ++ "/create".toList) := by decide
  rw [search_iff, servicesCreate, found_opt_seq, hl]
  exact found_create (by decide) hs

/-! ### `containers/json` -/

/-- The segment `containers`, and a later one begins with `json`, with no line feed between them. -/
def ContainersJson (g : GoString) (after : List GoString) : Prop :=
  g = "containers".toList ∧ ∃ between h rest, after = between ++ h :: rest ∧
    '\n' ∉ pathOf between ∧ "json".toList <+: h

theorem found_containersJson {a b : GoString} (ha : '/' ∉ a) (hb : '/' ∉ b) {gs : List GoString}
    (hs : Segments gs) :
    Found (seq (lit ('/' :: a)) (seq (opt slashAny) (lit ('/' :: b)))) (pathOf gs) ↔
      Somewhere (fun g after => g = a ∧ ∃ between h rest, after = between ++ h :: rest ∧
        '\n' ∉ pathOf between ∧ b <+: h) gs := by
  refine found_pathOf begins_seq_lit (fun {g after} hg hafter => ?_) hs
  refine ⟨fun ⟨t, hm⟩ => ?_, fun ⟨hga, between, h, rest, hgs, hn, ⟨x, hx⟩⟩ => ?_⟩
  · obtain ⟨u, hl, hu⟩ := matches_seq.mp hm
    obtain ⟨v, ho, hj⟩ := matches_seq.mp hu
    obtain ⟨y, hy, hn, hslash⟩ := matches_opt_slashAny.mp ho
    have hj' : v = '/' :: (b ++ t) := matches_lit.mp hj
    have hg' := lit_cons_pathOf.mp hl
    -- in both cases of the option a `/` follows `a`
    obtain ⟨z, hz⟩ : ∃ z, u = '/' :: z := by
      rcases hslash with rfl | ⟨w, rfl⟩
      · exact ⟨_, hy.trans hj'⟩
      · exact ⟨_, hy⟩
    obtain ⟨hga, hp⟩ := (append_pathOf_eq ha hg).mp (hz ▸ hg')
    rw [← hz, hy, hj'] at hp
    obtain ⟨between, h, rest, hafter', hbetween, hx⟩ := (pathOf_eq_append hafter).mp hp
    exact ⟨hga, between, h, rest, hafter', hbetween ▸ hn, (prefix_append_pathOf hb).mp ⟨t, hx⟩⟩
  · have hopt : Matches (opt slashAny) (pathOf after) ('/' :: (h ++ pathOf rest)) := by
      refine matches_opt_slashAny.mpr ⟨pathOf between, ?_, hn, ?_⟩
      · rw [hgs, pathOf_append, pathOf_cons]
      · cases between with
        | nil => exact .inl rfl
        | cons b between => exact .inr ⟨_, pathOf_cons b between⟩
    have hlit : Matches (lit ('/' :: b)) ('/' :: (h ++ pathOf rest)) (x ++ pathOf rest) := by
      rw [lit_cons_pathOf, ← hx, List.append_assoc]
    exact ⟨_, .seq (lit_cons_pathOf.mpr (by rw [hga])) (.seq hopt hlit)⟩

theorem containersJson_iff {gs : List GoString} (hs : Segments gs) :
    containersJson.search (pathOf gs) = true ↔ Somewhere ContainersJson gs := by
  have hc : "/containers".toList = '/' :: "containers".toList := by decide
  have hj : "/json".toList = '/' :: "json".toList := by decide
  rw [search_iff, containersJson, found_opt_seq, hc, hj]
  exact found_containersJson (by decide) (by decide) hs

/-! ### `services` and `tasks` -/

/-- The segment `services`, an empty one, and later, but not next, one that begins with
`update`, with no line feed between them. -/
def ServicesUpdate (g : GoString) (after : List GoString) : Prop :=
  g = "services".toList ∧ ∃ between h rest, after = [] :: (between ++ h :: rest) ∧
    between ≠ [] ∧ '\n' ∉ pathOf between ∧ "update".toList <+: h

theorem found_servicesUpdate {a b : GoString} (ha : '/' ∉ a) (hb : '/' ∉ b) {gs : List GoString}
    (hs : Segments gs) :
    Found (seq (lit ('/' :: (a ++ "/".toList))) (seq slashAny (lit ('/' :: b)))) (pathOf gs) ↔
      Somewhere (fun g after => g = a ∧ ∃ between h rest, after = [] :: (between ++ h :: rest) ∧
        between ≠ [] ∧ '\n' ∉ pathOf between ∧ b <+: h) gs := by
  refine found_pathOf begins_seq_lit (fun {g after} hg hafter => ?_) hs
  refine ⟨fun ⟨t, hm⟩ => ?_, fun ⟨hga, between, h, rest, hgs, hne, hn, ⟨x, hx⟩⟩ => ?_⟩
  · obtain ⟨u, hl, hu⟩ := matches_seq.mp hm
    obtain ⟨v, hsl, hj⟩ := matches_seq.mp hu
    obtain ⟨w, hw, hn⟩ := matches_slashAny.mp hsl
    have hj' : v = '/' :: (b ++ t) := matches_lit.mp hj
    have he : g ++ pathOf after = a ++ '/' :: u := by
      rw [lit_cons_pathOf.mp hl, List.append_assoc]
      rfl
    obtain ⟨hga, hp⟩ := (append_pathOf_eq ha hg).mp he
    obtain ⟨-, e, rest, hafter', hu'⟩ := pathOf_eq_cons hp
    have hsegs : Segments (e :: rest) := hafter' ▸ hafter
    -- the two slashes have an empty segment between them
    obtain ⟨he', hrest⟩ := (append_pathOf_eq List.not_mem_nil (hsegs e List.mem_cons_self)).mp
      (hu'.symm.trans hw)
    rw [hj', ← List.cons_append] at hrest
    obtain ⟨between, h, rest', hr, hbetween, hx⟩ :=
      (pathOf_eq_append fun k hk => hsegs k (List.mem_cons_of_mem e hk)).mp hrest
    refine ⟨hga, between, h, rest', by rw [hafter', he', hr], fun hnil => ?_, fun hc => ?_,
      (prefix_append_pathOf hb).mp ⟨t, hx⟩⟩
    · rw [hnil] at hbetween
      exact absurd hbetween (by simp [pathOf])
    · rcases List.mem_cons.mp (hbetween ▸ hc) with hd | hm
      · exact absurd hd (by decide)
      · exact hn hm
  · cases between with
    | nil => exact absurd rfl hne
    | cons k between =>
      rw [pathOf_cons] at hn
      have hsl : Matches slashAny (pathOf (k :: between ++ h :: rest))
          ('/' :: (h ++ pathOf rest)) := by
        refine matches_slashAny.mpr ⟨k ++ pathOf between, ?_, fun hm =>
          hn (List.mem_cons_of_mem _ hm)⟩
        rw [pathOf_append, pathOf_cons, pathOf_cons, List.cons_append]
      have hlit : Matches (lit ('/' :: b)) ('/' :: (h ++ pathOf rest)) (x ++ pathOf rest) := by
        rw [lit_cons_pathOf, ← hx, List.append_assoc]
      refine ⟨_, .seq (lit_cons_pathOf.mpr ?_) (.seq hsl hlit)⟩
      rw [hga, hgs, pathOf_cons, List.append_assoc]
      rfl

theorem servicesUpdate_iff {gs : List GoString} (hs : Segments gs) :
    servicesUpdate.search (pathOf gs) = true ↔ Somewhere ServicesUpdate gs := by
  have hl : "/services/".toList = '/' :: ("services".toList ++ "/".toList) := by decide
  have hu : "/update".toList = '/' :: "update".toList := by decide
  rw [search_iff, servicesUpdate, found_opt_seq, hl, hu]
  exact found_servicesUpdate (by decide) (by decide) hs

/-- The segment `services`, not the last one, and no line feed after it. -/
def Services (g : GoString) (after : List GoString) : Prop :=
  g = "services".toList ∧ after ≠ [] ∧ '\n' ∉ pathOf after

theorem found_services {a : GoString} (ha : '/' ∉ a) {gs : List GoString} (hs : Segments gs) :
    Found (seq (lit ('/' :: a)) (seq slashAny textEnd)) (pathOf gs) ↔
      Somewhere (fun g after => g = a ∧ after ≠ [] ∧ '\n' ∉ pathOf after) gs := by
  refine found_pathOf begins_seq_lit (fun {g after} hg _ => ?_) hs
  refine ⟨fun ⟨t, hm⟩ => ?_, fun ⟨hga, hne, hn⟩ => ?_⟩
  · obtain ⟨u, hl, hu⟩ := matches_seq.mp hm
    obtain ⟨v, hsl, he⟩ := matches_seq.mp hu
    obtain ⟨w, hw, hn⟩ := matches_slashAny.mp hsl
    obtain ⟨rfl, -⟩ := matches_textEnd.mp he
    obtain ⟨hga, hp⟩ := (append_pathOf_eq ha hg).mp (hw ▸ lit_cons_pathOf.mp hl)
    refine ⟨hga, fun h => ?_, fun hc => ?_⟩
    · rw [h] at hp
      exact absurd hp (by simp [pathOf])
    · rw [hp, List.append_nil] at hc
      rcases List.mem_cons.mp hc with he | hm
      · exact absurd he (by decide)
      · exact hn hm
  · cases after with
    | nil => exact absurd rfl hne
    | cons h rest =>
      have hsl : Matches slashAny (pathOf (h :: rest)) [] := by
        rw [pathOf_cons] at hn
        refine matches_slashAny.mpr ⟨h ++ pathOf rest, by rw [pathOf_cons, List.append_nil], ?_⟩
        exact fun hm => hn (List.mem_cons_of_mem _ hm)
      exact ⟨[], .seq (lit_cons_pathOf.mpr (by rw [hga])) (.seq hsl .textEnd)⟩

theorem services_iff {gs : List GoString} (hs : Segments gs) :
    services.search (pathOf gs) = true ↔ Somewhere Services gs := by
  have hl : "/services".toList = '/' :: "services".toList := by decide
  rw [search_iff, services, found_opt_seq, hl]
  exact found_services (by decide) hs

/-- A segment begins with `tasks`. -/
def Tasks (g : GoString) (_ : List GoString) : Prop := "tasks".toList <+: g

theorem tasks_iff {gs : List GoString} (hs : Segments gs) :
    tasks.search (pathOf gs) = true ↔ Somewhere Tasks gs := by
  have hl : "/tasks".toList = '/' :: "tasks".toList := by decide
  rw [search_iff, tasks, found_opt_seq, hl]
  refine found_pathOf begins_seq_lit (fun {g after} hg _ => ?_) hs
  refine ⟨fun ⟨t, hm⟩ => ?_, fun ⟨x, hx⟩ => ?_⟩
  · obtain ⟨u, hl, -⟩ := matches_seq.mp hm
    exact (prefix_append_pathOf (by decide)).mp ⟨u, (lit_cons_pathOf.mp hl).symm⟩
  · refine ⟨x ++ pathOf after, .seq (lit_cons_pathOf.mpr ?_) (matches_opt.mpr (.inr rfl))⟩
    rw [← hx, List.append_assoc]

/-! ## Endpoints -/

/-- The rows in order. -/
theorem getRewriter_eq (s : GoString) :
    getRewriter s =
      if containersJson.search s = true then some .containerSummary
      else if containersCreate.search s = true then some .containerConfig
      else if servicesCreate.search s = true then some .serviceSpec
      else if servicesUpdate.search s = true then some .serviceSpec
      else if services.search s = true then some .service
      else if tasks.search s = true then some .task
      else none := by
  simp only [getRewriter, rewriteMappings, List.find?_cons, List.find?_nil]
  repeat' split
  all_goals simp_all

/-- `/v` digits `.` digits -/
structure ApiVersion where
  major : GoString
  minor : GoString
  digits : ∀ c ∈ major ++ minor, c.isDigit = true

/-- The segments of a version prefix, which may be absent. -/
def versionPrefix : Option ApiVersion → List GoString
  | none => []
  | some v => ['v' :: (v.major ++ '.' :: v.minor)]

/-- The id of a container, a service or a task in a path. -/
structure IdSegment where
  id : GoString
  ne_nil : id ≠ []
  slash : '/' ∉ id
  ne_json : id ≠ "json".toList
  ne_create : id ≠ "create".toList

inductive Endpoint where
  | containersJson
  | containerJson (id : IdSegment)
  | containersCreate
  | servicesCreate
  | serviceUpdate (id : IdSegment)
  | services
  | service (id : IdSegment)
  | tasks
  | task (id : IdSegment)
  | serviceLogs (id : IdSegment)
  | taskLogs (id : IdSegment)

namespace Endpoint

def segments : Endpoint → List GoString
  | containersJson => ["containers".toList, "json".toList]
  | containerJson id => ["containers".toList, id.id, "json".toList]
  | containersCreate => ["containers".toList, "create".toList]
  | servicesCreate => ["services".toList, "create".toList]
  | serviceUpdate id => ["services".toList, id.id, "update".toList]
  | services => ["services".toList]
  | service id => ["services".toList, id.id]
  | tasks => ["tasks".toList]
  | task id => ["tasks".toList, id.id]
  | serviceLogs id => ["services".toList, id.id, "logs".toList]
  | taskLogs id => ["tasks".toList, id.id, "logs".toList]

/-- The rewriter for the body of the endpoint, none for a raw stream. -/
def intended : Endpoint → Option Rewriter
  | containersJson | containerJson _ => some .containerSummary
  | containersCreate => some .containerConfig
  | servicesCreate | serviceUpdate _ => some .serviceSpec
  | services | service _ => some .service
  | tasks | task _ => some .task
  | serviceLogs _ | taskLogs _ => none

end Endpoint

/-- The URL path of an endpoint. -/
def urlPath (P : Option ApiVersion) (e : Endpoint) : GoString :=
  pathOf (versionPrefix P ++ e.segments)

/-- When the table is right about an endpoint. -/
def Endpoint.Reached : Endpoint → Prop
  | containersJson | containersCreate | servicesCreate | tasks | task _ => True
  | containerJson id => '\n' ∉ id.id ∨ "json".toList <+: id.id
  | serviceUpdate id => "create".toList <+: id.id
  | services | taskLogs _ => False
  | service id => '\n' ∉ id.id ∧ ¬ "create".toList <+: id.id
  | serviceLogs id => '\n' ∈ id.id ∧ ¬ "create".toList <+: id.id ∧ ¬ "tasks".toList <+: id.id

theorem somewhere_versionPrefix {Q : GoString → List GoString → Prop} {P : Option ApiVersion}
    {gs : List GoString} (h : ∀ x after, ¬ Q ('v' :: x) after) :
    Somewhere Q (versionPrefix P ++ gs) ↔ Somewhere Q gs := by
  cases P with
  | none => rfl
  | some v => exact or_iff_right (h _ _)

theorem ApiVersion.slash (v : ApiVersion) : '/' ∉ v.major ++ v.minor := by
  intro h
  exact absurd (v.digits '/' h) (by decide)

theorem segments_versionPrefix (P : Option ApiVersion) : Segments (versionPrefix P) := by
  intro g hg hc
  cases P with
  | none => exact absurd hg List.not_mem_nil
  | some v =>
    obtain rfl := List.mem_singleton.mp hg
    rcases List.mem_cons.mp hc with he | hc
    · exact absurd he (by decide)
    · rcases List.mem_append.mp hc with hm | hc
      · exact v.slash (List.mem_append_left _ hm)
      · rcases List.mem_cons.mp hc with he | hm
        · exact absurd he (by decide)
        · exact v.slash (List.mem_append_right _ hm)

theorem segments_endpoint (e : Endpoint) : Segments e.segments := by
  have hid : ∀ (id : IdSegment) (a : GoString) (gs : List GoString), '/' ∉ a → Segments gs →
      Segments (a :: id.id :: gs) := fun id a gs ha hgs =>
    List.forall_mem_cons.mpr ⟨ha, List.forall_mem_cons.mpr ⟨id.slash, hgs⟩⟩
  unfold Segments at *
  cases e with
  | containersJson | containersCreate | servicesCreate | services | tasks => decide
  | containerJson id | serviceUpdate id | service id | task id | serviceLogs id | taskLogs id =>
    exact hid id _ _ (by decide) (by decide)

theorem segments_urlPath (P : Option ApiVersion) (e : Endpoint) :
    Segments (versionPrefix P ++ e.segments) := by
  intro g hg
  rcases List.mem_append.mp hg with hv | he
  · exact segments_versionPrefix P g hv
  · exact segments_endpoint e g he

/-- No row looks at a version. -/
theorem version_rows (x : GoString) (after : List GoString) :
    ¬ ContainersJson ('v' :: x) after ∧ ¬ CreateAfter "containers".toList ('v' :: x) after ∧
      ¬ CreateAfter "services".toList ('v' :: x) after ∧ ¬ ServicesUpdate ('v' :: x) after ∧
      ¬ Services ('v' :: x) after ∧ ¬ Tasks ('v' :: x) after := by
  have hne : ∀ {a : GoString}, a.head? ≠ some 'v' → ¬ 'v' :: x = a := by
    intro a ha h
    exact ha (h ▸ rfl)
  refine ⟨fun h => hne (by decide) h.1, fun h => hne (by decide) h.1, fun h => hne (by decide) h.1,
    fun h => hne (by decide) h.1, fun h => hne (by decide) h.1, fun h => ?_⟩
  obtain ⟨t, ht⟩ := h
  exact absurd (congrArg List.head? ht) (by simp)


open Classical in
theorem getRewriter_urlPath (P : Option ApiVersion) (e : Endpoint) :
    getRewriter (urlPath P e) =
      if Somewhere ContainersJson e.segments then some .containerSummary
      else if Somewhere (CreateAfter "containers".toList) e.segments then some .containerConfig
      else if Somewhere (CreateAfter "services".toList) e.segments then some .serviceSpec
      else if Somewhere ServicesUpdate e.segments then some .serviceSpec
      else if Somewhere Services e.segments then some .service
      else if Somewhere Tasks e.segments then some .task
      else none := by
  have hs := segments_urlPath P e
  rw [getRewriter_eq, urlPath]
  simp only [containersJson_iff hs, containersCreate_iff hs, servicesCreate_iff hs,
    servicesUpdate_iff hs,
    services_iff hs, tasks_iff hs, somewhere_versionPrefix fun x after => (version_rows x after).1,
    somewhere_versionPrefix fun x after => (version_rows x after).2.1,
    somewhere_versionPrefix fun x after => (version_rows x after).2.2.1,
    somewhere_versionPrefix fun x after => (version_rows x after).2.2.2.1,
    somewhere_versionPrefix fun x after => (version_rows x after).2.2.2.2.1,
    somewhere_versionPrefix fun x after => (version_rows x after).2.2.2.2.2]

/-! ### The rows on the segments of an endpoint -/

theorem lineFeed_pathOf {gs : List GoString} : '\n' ∈ pathOf gs ↔ ∃ g ∈ gs, '\n' ∈ g := by
  rw [pathOf, List.mem_flatMap]
  refine exists_congr fun g => and_congr_right fun _ => ?_
  rw [List.mem_cons]
  exact or_iff_right (by decide)

theorem createAfter_nil {a g : GoString} : ¬ CreateAfter a g [] :=
  fun ⟨_, _, _, h, _⟩ => absurd h.symm (List.cons_ne_nil _ _)

theorem createAfter_cons {a g h : GoString} {rest : List GoString} :
    CreateAfter a g (h :: rest) ↔ g = a ∧ "create".toList <+: h := by
  refine and_congr_right fun _ => ⟨fun ⟨h', rest', he, hp⟩ => ?_, fun hp => ⟨h, rest, rfl, hp⟩⟩
  exact (List.cons.inj he).1 ▸ hp

theorem containersJson_nil {g : GoString} : ¬ ContainersJson g [] :=
  fun ⟨_, _, _, _, h, _⟩ => absurd h.symm (by simp)

theorem containersJson_one {g h : GoString} :
    ContainersJson g [h] ↔ g = "containers".toList ∧ "json".toList <+: h := by
  refine and_congr_right fun _ => ⟨fun ⟨between, h', rest, he, _, hp⟩ => ?_, fun hp => ?_⟩
  · obtain ⟨-, rfl, -⟩ : between = [] ∧ h = h' ∧ rest = [] := by
      cases between with
      | nil => exact ⟨rfl, (List.cons.inj he).1, (List.cons.inj he).2.symm⟩
      | cons b between => exact absurd (List.cons.inj he).2.symm (by simp)
    exact hp
  · exact ⟨[], h, [], rfl, by decide, hp⟩

theorem containersJson_two {g h k : GoString} :
    ContainersJson g [h, k] ↔
      g = "containers".toList ∧ ("json".toList <+: h ∨ '\n' ∉ h ∧ "json".toList <+: k) := by
  refine and_congr_right fun _ => ⟨fun ⟨between, h', rest, he, hn, hp⟩ => ?_, fun hp => ?_⟩
  · match between, he with
    | [], he => exact .inl ((List.cons.inj he).1 ▸ hp)
    | [b], he =>
      obtain ⟨hb, he⟩ := List.cons.inj he
      have hk : k = h' := (List.cons.inj he).1
      exact .inr ⟨fun hc => hn (lineFeed_pathOf.mpr ⟨b, List.mem_singleton.mpr rfl, hb ▸ hc⟩),
        hk ▸ hp⟩
    | b :: c :: between, he => exact absurd (List.cons.inj (List.cons.inj he).2).2.symm (by simp)
  · rcases hp with hp | ⟨hn, hp⟩
    · exact ⟨[], h, [k], rfl, by decide, hp⟩
    · refine ⟨[h], k, [], rfl, fun hb => ?_, hp⟩
      obtain ⟨g', hg', hb⟩ := lineFeed_pathOf.mp hb
      exact hn (List.mem_singleton.mp hg' ▸ hb)

/-- The row for updates needs an empty segment, and an endpoint has none. -/
theorem not_servicesUpdate (e : Endpoint) : ¬ Somewhere ServicesUpdate e.segments := by
  have hne : [] ∉ e.segments := by
    have hid : ∀ (id : IdSegment) (a : GoString) (gs : List GoString), a ≠ [] → [] ∉ gs →
        [] ∉ a :: id.id :: gs := by
      intro id a gs ha hgs h
      rcases List.mem_cons.mp h with h | h
      · exact ha h.symm
      · rcases List.mem_cons.mp h with h | h
        · exact id.ne_nil h.symm
        · exact hgs h
    cases e with
    | containersJson | containersCreate | servicesCreate | services | tasks => decide
    | containerJson id | serviceUpdate id | service id | task id | serviceLogs id | taskLogs id =>
      exact hid id _ _ (by decide) (by decide)
  rw [somewhere_iff]
  intro ⟨before, g, after, he, _, between, h, rest, ha, _⟩
  rw [he, ha] at hne
  exact hne (List.mem_append_right _ (List.mem_cons_of_mem g List.mem_cons_self))

theorem services_nil {g : GoString} : ¬ Services g [] := fun h => h.2.1 rfl

theorem services_one {g h : GoString} : Services g [h] ↔ g = "services".toList ∧ '\n' ∉ h := by
  refine and_congr_right fun _ => ⟨fun ⟨_, hn⟩ hb => ?_, fun hn =>
    ⟨List.cons_ne_nil _ _, fun hb => ?_⟩⟩
  · exact hn (lineFeed_pathOf.mpr ⟨h, List.mem_singleton.mpr rfl, hb⟩)
  · obtain ⟨k, hk, hb⟩ := lineFeed_pathOf.mp hb
    exact hn (List.mem_singleton.mp hk ▸ hb)

theorem services_two {g h k : GoString} :
    Services g [h, k] ↔ g = "services".toList ∧ '\n' ∉ h ∧ '\n' ∉ k := by
  refine and_congr_right fun _ =>
    ⟨fun ⟨_, hn⟩ => ⟨fun hb => ?_, fun hb => ?_⟩, fun ⟨hh, hk⟩ =>
      ⟨List.cons_ne_nil _ _, fun hb => ?_⟩⟩
  · exact hn (lineFeed_pathOf.mpr ⟨h, List.mem_cons_self, hb⟩)
  · exact hn (lineFeed_pathOf.mpr ⟨k, List.mem_cons_of_mem h List.mem_cons_self, hb⟩)
  · obtain ⟨l, hl, hb⟩ := lineFeed_pathOf.mp hb
    rcases List.mem_cons.mp hl with he | hl
    · exact hh (he ▸ hb)
    · exact hk (List.mem_singleton.mp hl ▸ hb)

/-- How the literal segments compare. -/
theorem literal_segments :
    "services".toList ≠ "containers".toList ∧ "containers".toList ≠ "services".toList ∧
      "tasks".toList ≠ "containers".toList ∧ "tasks".toList ≠ "services".toList ∧
      "json".toList <+: "json".toList ∧ ¬ "json".toList <+: "create".toList ∧
      ¬ "json".toList <+: "update".toList ∧ ¬ "json".toList <+: "logs".toList ∧
      "create".toList <+: "create".toList ∧ ¬ "create".toList <+: "json".toList ∧
      ¬ "create".toList <+: "update".toList ∧ ¬ "create".toList <+: "logs".toList ∧
      "tasks".toList <+: "tasks".toList ∧ ¬ "tasks".toList <+: "containers".toList ∧
      ¬ "tasks".toList <+: "json".toList ∧ ¬ "tasks".toList <+: "services".toList ∧
      ¬ "tasks".toList <+: "create".toList ∧ ¬ "tasks".toList <+: "update".toList ∧
      ¬ "tasks".toList <+: "logs".toList ∧ '\n' ∉ "json".toList ∧ '\n' ∉ "update".toList ∧
      '\n' ∉ "logs".toList := by decide

/-- **When the table is right.**  For every version prefix, every endpoint and every id,
`getRewriter` selects the intended rewriter exactly when the endpoint is `Reached`. -/
theorem getRewriter_iff (P : Option ApiVersion) (e : Endpoint) :
    getRewriter (urlPath P e) = e.intended ↔ e.Reached := by
  rw [getRewriter_urlPath, if_neg (not_servicesUpdate e)]
  cases e
  all_goals simp only [Endpoint.segments, Endpoint.Reached, Endpoint.intended, Somewhere,
    containersJson_nil, containersJson_one, containersJson_two, createAfter_nil, createAfter_cons,
    services_nil, services_one, services_two, Tasks, literal_segments, not_false_eq_true, true_and,
    and_true, and_false, false_and, or_false, false_or, true_or, if_true, if_false]
  case containerJson id =>
    have hcontainers : id.id = "containers".toList → '\n' ∉ id.id := fun h => h ▸ by decide
    by_cases hjson : "json".toList <+: id.id ∨ '\n' ∉ id.id
    · rw [if_pos (.inl hjson)]
      exact iff_of_true rfl hjson.symm
    · have hrow : ¬ (("json".toList <+: id.id ∨ '\n' ∉ id.id) ∨ id.id = "containers".toList) :=
        fun h => hjson (h.elim (fun h => h) fun h => .inr (hcontainers h))
      rw [if_neg hrow]
      refine iff_of_false (fun h => ?_) fun h => hjson h.symm
      repeat' split at h
      all_goals exact absurd h (by decide)
  case serviceUpdate id =>
    by_cases hcreate : "create".toList <+: id.id
    · rw [if_pos hcreate]
      exact iff_of_true rfl hcreate
    · rw [if_neg hcreate]
      refine iff_of_false (fun h => ?_) hcreate
      repeat' split at h
      all_goals exact absurd h (by decide)
  case services => exact iff_of_false (by decide) (fun h => h)
  case service id =>
    by_cases hcreate : "create".toList <+: id.id
    · rw [if_pos hcreate]
      exact iff_of_false (by decide) fun h => h.2 hcreate
    · rw [if_neg hcreate]
      by_cases hn : '\n' ∉ id.id
      · rw [if_pos hn]
        exact iff_of_true rfl ⟨hn, hcreate⟩
      · rw [if_neg hn]
        refine iff_of_false (fun h => ?_) fun h => hn h.1
        split at h
        all_goals exact absurd h (by decide)
  case serviceLogs id =>
    have hservices : id.id = "services".toList → '\n' ∉ id.id := fun h => h ▸ by decide
    by_cases hcreate : "create".toList <+: id.id
    · rw [if_pos hcreate]
      exact iff_of_false (by decide) fun h => h.2.1 hcreate
    · rw [if_neg hcreate]
      by_cases hn : '\n' ∉ id.id
      · rw [if_pos (.inl hn)]
        exact iff_of_false (by decide) fun h => hn h.1
      · rw [if_neg fun h => hn (h.elim (fun h => h) hservices)]
        by_cases htasks : "tasks".toList <+: id.id
        · rw [if_pos htasks]
          exact iff_of_false (by decide) fun h => h.2.2 htasks
        · rw [if_neg htasks]
          exact iff_of_true rfl ⟨Classical.not_not.mp hn, hcreate, htasks⟩
  case taskLogs id =>
    refine iff_of_false (fun h => ?_) fun h => h
    split at h
    all_goals exact absurd h (by decide)

def version141 : ApiVersion where
  major := "1".toList
  minor := "41".toList
  digits := List.all_eq_true.mp (by decide)

/-- The list of services of API version 1.41 is not rewritten. -/
theorem getRewriter_services :
    ¬ ∀ (P : Option ApiVersion) (e : Endpoint), getRewriter (urlPath P e) = e.intended := by
  intro h
  exact absurd (h (some version141) .services) (by decide)

end ContainerDesktop.Rewrite
