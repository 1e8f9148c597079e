import ContainerDesktop.Rewrite.Frame

/-!
# Panics

`mapPath` and `RewriteBody` index and slice, and the rewriters assert the types of
what they find.  The indices are always in range: `mapPathGo` and `rewriteReadGo`
check each of them, and compute what `mapPath` and `rewriteRead` compute.  The
assertions are not always right.  A rewriter runs only on documents that are
`WellTyped` (`Demands`), so `rewriteBody_returns_iff` says exactly which bodies make
it panic.
-/

namespace ContainerDesktop.Rewrite

/-! ## Indices and slices -/

inductive RuntimeError where
  | assertion (p : Panic)
  | index
  | slice
  deriving DecidableEq

/-- `xs[i]` -/
def goIndex {α : Type} (xs : List α) (i : Nat) : Except RuntimeError α :=
  match xs[i]? with
  | some x => return x
  | none => throw .index

/-- `xs[i:]` -/
def goSliceFrom {α : Type} (xs : List α) (i : Nat) : Except RuntimeError (List α) :=
  if i ≤ xs.length then return xs.drop i else throw .slice

/-- `mapPath`, with a check at each index and slice. -/
def mapPathGo (windows : Bool) (s path : GoString) : Except RuntimeError GoString := do
  let s := replaceAll '\\' '/' s
  let parts := s.splitOn ':'
  if hostPrefix.isPrefixOf (← goIndex parts 0) then
    let p ← goSliceFrom (← goIndex parts 0) 10
    let parts2 := p.splitOn '/'
    let p := (← goIndex parts2 0) ++ ":/".toList ++ join (← goSliceFrom parts2 1) '/'
    return join (replaceAll '/' '\\' p :: (← goSliceFrom parts 1)) ':'
  else if wslPrefix.isPrefixOf (← goIndex parts 0) then
    let parts2 := (← goSliceFrom (← goIndex parts 0) 9).splitOn '/'
    return join (join (← goSliceFrom parts2 1) '/' :: (← goSliceFrom parts 1)) ':'
  else if windows then
    if (← goIndex parts 0) ≠ "/".toList ∧ goLen (← goIndex parts 0) = 1 then
      return path ++ "/".toList ++ (← goIndex parts 0).map Char.toLower ++
        join (← goSliceFrom parts 1) ':'
    else return s
  else if "/".toList.isPrefixOf s then return path ++ s
  else return s

theorem goIndex_zero {α : Type} {xs : List α} (h : xs ≠ []) (d : α) :
    goIndex xs 0 = .ok (xs.headD d) := by
  obtain ⟨x, xs, rfl⟩ := List.exists_cons_of_ne_nil h
  rfl

theorem goSliceFrom_one {α : Type} {xs : List α} (h : xs ≠ []) :
    goSliceFrom xs 1 = .ok xs.tail := by
  obtain ⟨x, xs, rfl⟩ := List.exists_cons_of_ne_nil h
  rfl

theorem goSliceFrom_of_prefix {t s : GoString} (h : t.isPrefixOf s = true) :
    goSliceFrom s t.length = .ok (s.drop t.length) :=
  if_pos (List.isPrefixOf_iff_prefix.mp h).length_le

/-- **No index of `mapPath` is out of range.** -/
theorem mapPathGo_eq (windows : Bool) (s path : GoString) :
    mapPathGo windows s path = .ok (mapPath windows s path) := by
  have hparts : ∀ {c : Char} {t : GoString}, goIndex (t.splitOn c) 0 = .ok
      ((t.splitOn c).headD []) :=
    goIndex_zero (List.splitOn_ne_nil _ _) []
  have htail : ∀ {c : Char} {t : GoString}, goSliceFrom (t.splitOn c) 1 = .ok (t.splitOn c).tail :=
    goSliceFrom_one (List.splitOn_ne_nil _ _)
  have hten : hostPrefix.length = 10 := by decide
  simp only [mapPathGo, mapPath, hparts, htail, bind, Except.bind]
  generalize ((replaceAll '\\' '/' s).splitOn ':').headD [] = source
  by_cases hhost : hostPrefix.isPrefixOf source = true
  · have hslice := goSliceFrom_of_prefix hhost
    rw [hten] at hslice
    simp only [if_pos hhost, hslice]
    rfl
  · by_cases hwsl : wslPrefix.isPrefixOf source = true
    · have hslice := goSliceFrom_of_prefix hwsl
      rw [length_wslPrefix] at hslice
      simp only [if_neg hhost, if_pos hwsl, hslice]
      rfl
    · simp only [if_neg hhost, if_neg hwsl]
      split
      · split <;> rfl
      · split <;> rfl

section RewriteRead

variable {N : Type} (windows : Bool) (C : JsonCodec N) (wslDistroName : GoString)

/-- A failed assertion among the other errors. -/
def asserted {α : Type} (x : Except Panic α) : Except RuntimeError α := x.mapError .assertion

/-- `RewriteBody` after the body was read, with a check at each index. -/
def rewriteReadGo (rewriter : Rewriter) (buf : List UInt8) (err : Option GoError) :
    Except RuntimeError (Except GoError (List UInt8)) :=
  match err with
  | some err => return .error err
  | none => do
    if buf.length = 0 then return .ok buf
    else if (← goIndex buf 0) = openBrace then
      match C.unmarshalMap buf with
      | .error err => return .error err
      | .ok jsonMap =>
        let jsonArray ← asserted ([Json.obj jsonMap].mapM
          (rewriteItem windows wslDistroName rewriter))
        return C.marshal (← goIndex jsonArray 0)
    else if (← goIndex buf 0) = openBracket then
      match C.unmarshalArray buf with
      | .error err => return .error err
      | .ok jsonArray =>
        let jsonArray ← asserted (jsonArray.mapM (rewriteItem windows wslDistroName rewriter))
        return C.marshal (.arr jsonArray)
    else return .ok []

/-- **No index of `RewriteBody` is out of range.** -/
theorem rewriteReadGo_eq (rewriter : Rewriter) (buf : List UInt8) (err : Option GoError) :
    rewriteReadGo windows C wslDistroName rewriter buf err
      = asserted (rewriteRead windows C wslDistroName rewriter buf err) := by
  cases err with
  | some err => rfl
  | none =>
    cases buf with
    | nil => rfl
    | cons c buf =>
      have hfirst : goIndex (c :: buf) 0 = .ok c := rfl
      have hlen : ¬ (c :: buf).length = 0 := by simp
      simp only [rewriteReadGo, rewriteRead, if_neg hlen, hfirst, bind, Except.bind, jsonItems,
        List.head?_cons, Option.some.injEq]
      by_cases hbrace : c = openBrace
      · rw [if_pos hbrace, if_pos hbrace]
        cases hm : C.unmarshalMap (c :: buf) with
        | error e => rfl
        | ok m =>
          simp only [pure, Except.pure, List.mapM_cons, List.mapM_nil]
          cases rewriteItem windows wslDistroName rewriter (.obj m) <;> rfl
      · rw [if_neg hbrace, if_neg hbrace]
        by_cases hbracket : c = openBracket
        · rw [if_pos hbracket, if_pos hbracket]
          cases ha : C.unmarshalArray (c :: buf) with
          | error e => rfl
          | ok items =>
            simp only [pure, Except.pure]
            cases items.mapM (rewriteItem windows wslDistroName rewriter) <;> rfl
        · rw [if_neg hbracket, if_neg hbracket]
          rfl

end RewriteRead

/-! ## Assertions -/

section Demands

variable {N : Type} {windows : Bool} {path : GoString} {binds mounts : List Position}

/-- The function panics on every part that is not well typed. -/
def Demands {B : Type} (binds mounts : List Position) (wrap : B → Json N)
    (f : B → Except Panic B) : Prop :=
  ∀ b b', f b = .ok b' → WellTyped binds mounts (wrap b)

theorem mapM_ok_mem {A B : Type} {g : A → Except Panic B} {xs : List A} {ys : List B}
    (h : xs.mapM g = .ok ys) {x : A} (hx : x ∈ xs) : ∃ y, g x = .ok y := by
  induction xs generalizing ys with
  | nil => exact nomatch hx
  | cons x' xs ih =>
    obtain ⟨z, zs, hz, hzs, -⟩ := mapM_cons_ok h
    rcases List.mem_cons.mp hx with rfl | hx
    · exact ⟨z, hz⟩
    · exact ih hzs hx

theorem mem_of_at_item {items : List (Json N)} {i : Nat} {o : Json N}
    (h : (Json.arr items).at ([] ++ [.item i]) = some o) : o ∈ items := by
  obtain ⟨o', ho, hat⟩ := Json.at_item_iff.mp h
  rw [Json.at_nil] at hat
  obtain rfl := Option.some.inj hat
  exact List.mem_of_getElem? ho

theorem demands_rewriteBinds : Demands [[]] [] Json.arr (rewriteBinds (N := N) windows path) := by
  intro binds binds' h
  refine ⟨fun a ha i o ho => ?_, fun _ ha => (nomatch ha), fun _ ha => (nomatch ha)⟩
  obtain rfl := List.mem_singleton.mp ha
  obtain ⟨y, hy⟩ := mapM_ok_mem h (mem_of_at_item ho)
  obtain ⟨s, hs, -⟩ := bind_ok hy
  exact ⟨s, Option.some.inj (asString_eq_ok hs)⟩

theorem rewriteMount_demands {mount mount' : JsonMap N}
    (h : rewriteMount windows path mount = .ok mount') :
    (∃ t, mount.lookup "Type".toList = some (.str t)) ∧
      (mount.lookup "Type".toList = some (.str "bind".toList) →
        ∃ s, mount.lookup "Source".toList = some (.str s)) := by
  obtain ⟨t, ht, h⟩ := bind_ok h
  have htype := asString_eq_ok ht
  refine ⟨⟨t, htype⟩, fun hbind => ?_⟩
  obtain rfl := Json.str.inj (Option.some.inj (htype.symm.trans hbind))
  rw [if_pos rfl] at h
  obtain ⟨s, hs, -⟩ := bind_ok h
  exact ⟨s, asString_eq_ok hs⟩

theorem demands_rewriteMounts : Demands [] [[]] Json.arr (rewriteMounts (N := N) windows path) := by
  intro mounts mounts' h
  have hmount : ∀ i m, (Json.arr mounts).at ([] ++ [.item i]) = some (.obj m) →
      ∃ m', rewriteMount windows path m = .ok m' := fun i m hm => by
    obtain ⟨y, hy⟩ := mapM_ok_mem h (mem_of_at_item hm)
    obtain ⟨m', hm', -⟩ := bind_ok hy
    exact ⟨m', hm'⟩
  refine ⟨fun _ ha => (nomatch ha), fun a ha i m hm => ?_, fun a ha i m hm => ?_⟩
  · obtain rfl := List.mem_singleton.mp ha
    obtain ⟨m', hm'⟩ := hmount i m hm
    exact (rewriteMount_demands hm').1
  · obtain rfl := List.mem_singleton.mp ha
    obtain ⟨m', hm'⟩ := hmount i m hm
    exact (rewriteMount_demands hm').2

/-! ### Along a document -/

variable {B : Type} {wrap : B → Json N} {f : B → Except Panic B} {key : GoString}
  {F : JsonMap N → Except Panic (JsonMap N)}

theorem wellTyped_below {m : JsonMap N}
    (h : ∀ o, m.lookup key = some o → WellTyped binds mounts o) :
    WellTyped (below key binds) (below key mounts) (.obj m) := by
  refine ⟨fun a ha i v hv => ?_, fun a ha i v hv => ?_, fun a ha i v hv => ?_⟩
  all_goals
    obtain ⟨b, hb, rfl⟩ := List.mem_map.mp ha
    obtain ⟨o, ho, hv⟩ := Json.at_field_iff.mp hv
  · exact (h o ho).bind b hb i v hv
  · exact (h o ho).mountType b hb i v hv
  · exact (h o ho).mountSource b hb i v hv

theorem Demands.under (hf : Demands binds mounts wrap f) (hF : Under key wrap f F)
    (hnone : ∀ o : Json N, (∀ b, o ≠ wrap b) → WellTyped binds mounts o) :
    Demands (below key binds) (below key mounts) Json.obj F := by
  intro m m' h
  refine wellTyped_below fun o ho => ?_
  rcases hF.cases h with ⟨b, b', hm, hb, -⟩ | ⟨hm, -⟩
  · obtain rfl := Option.some.inj (ho.symm.trans hm)
    exact hf b b' hb
  · exact hnone o fun b hb => hm b (hb ▸ ho)

theorem wellTyped_append {binds' mounts' : List Position} {doc : Json N}
    (h : WellTyped binds mounts doc) (h' : WellTyped binds' mounts' doc) :
    WellTyped (binds ++ binds') (mounts ++ mounts') doc where
  bind := fun a ha => (List.mem_append.mp ha).elim (h.bind a) (h'.bind a)
  mountType := fun a ha => (List.mem_append.mp ha).elim (h.mountType a) (h'.mountType a)
  mountSource := fun a ha => (List.mem_append.mp ha).elim (h.mountSource a) (h'.mountSource a)

theorem Demands.andThen {other : GoString} {binds' mounts' : List Position}
    {G : JsonMap N → Except Panic (JsonMap N)}
    (hf : Demands (below key binds) (below key mounts) Json.obj F)
    (hg : Demands (below other binds') (below other mounts') Json.obj G)
    (hF : Under key wrap f F) (hne : other ≠ key) :
    Demands (below key binds ++ below other binds')
        (below key mounts ++ below other mounts') Json.obj
      fun m => F m >>= G := by
  intro m m'' h
  obtain ⟨m', hm', h⟩ := bind_ok h
  -- what the second function finds stood there before the first
  exact wellTyped_append (hf m m' hm') ((hg m' m'' h).below_congr (hF.others hm' hne).symm)

/-! ### The rewriters -/

theorem wellTyped_of_not_arr (hb : ∀ a ∈ binds, a = []) (hm : ∀ a ∈ mounts, a = []) (o : Json N)
    (ho : ∀ items, o ≠ .arr items) : WellTyped binds mounts o := by
  refine ⟨fun a ha i v hv => ?_, fun a ha i v hv => ?_, fun a ha i v hv => ?_⟩
  · obtain rfl := hb a ha
    exact nomatch (Json.at_item_of_not_arr ho i []).symm.trans hv
  · obtain rfl := hm a ha
    exact nomatch (Json.at_item_of_not_arr ho i []).symm.trans hv
  · obtain rfl := hm a ha
    exact nomatch (Json.at_item_of_not_arr ho i []).symm.trans hv

theorem wellTyped_of_not_obj (hb : FromKey binds) (hm : FromKey mounts) (o : Json N)
    (ho : ∀ m, o ≠ .obj m) : WellTyped binds mounts o := by
  refine ⟨fun a ha i v hv => ?_, fun a ha i v hv => ?_, fun a ha i v hv => ?_⟩
  · obtain ⟨key, b, rfl⟩ := hb a ha
    exact nomatch (Json.at_field_of_not_obj ho key _).symm.trans hv
  · obtain ⟨key, b, rfl⟩ := hm a ha
    exact nomatch (Json.at_field_of_not_obj ho key _).symm.trans hv
  · obtain ⟨key, b, rfl⟩ := hm a ha
    exact nomatch (Json.at_field_of_not_obj ho key _).symm.trans hv

theorem binds_demands (key : GoString) :
    Demands (N := N) (below key [[]]) (below key []) Json.obj
      fun m => JsonMap.onArray m key (rewriteBinds windows path) :=
  demands_rewriteBinds.under (under_onArray key _)
    (wellTyped_of_not_arr (fun _ => List.mem_singleton.mp) fun _ h => nomatch h)

theorem mounts_demands (key : GoString) :
    Demands (N := N) (below key []) (below key [[]]) Json.obj
      fun m => JsonMap.onArray m key (rewriteMounts windows path) :=
  demands_rewriteMounts.under (under_onArray key _)
    (wellTyped_of_not_arr (fun _ h => nomatch h) fun _ => List.mem_singleton.mp)

theorem Demands.below {key' : GoString}
    (hf : Demands (below key binds) (below key mounts) Json.obj F) :
    Demands (Rewrite.below key' (Rewrite.below key binds))
        (Rewrite.below key' (Rewrite.below key mounts))
      Json.obj fun m => JsonMap.onMap m key' F :=
  hf.under (under_onMap key' F) (wellTyped_of_not_obj (fromKey_below _ _) (fromKey_below _ _))

theorem hostConfig_demands :
    Demands (N := N) (Rewrite.below "Binds".toList [[]] ++ Rewrite.below "Mounts".toList [])
      (Rewrite.below "Binds".toList [] ++ Rewrite.below "Mounts".toList [[]]) Json.obj
      (rewriteHostConfig windows path) :=
  (binds_demands "Binds".toList).andThen (mounts_demands "Mounts".toList)
    (under_onArray _ _) (by decide)

theorem container_demands :
    Demands (N := N)
      (Rewrite.below "HostConfig".toList
          (Rewrite.below "Binds".toList [[]] ++ Rewrite.below "Mounts".toList []) ++
        Rewrite.below "Mounts".toList [])
      (Rewrite.below "HostConfig".toList
          (Rewrite.below "Binds".toList [] ++ Rewrite.below "Mounts".toList [[]]) ++
        Rewrite.below "Mounts".toList [[]]) Json.obj
      (rewriteContainerSummary windows path) := by
  have hnone := wellTyped_of_not_obj (N := N)
    ((fromKey_below "Binds".toList [[]]).append (fromKey_below "Mounts".toList []))
    ((fromKey_below "Binds".toList []).append (fromKey_below "Mounts".toList [[]]))
  exact Demands.andThen (hostConfig_demands.under (under_onMap "HostConfig".toList _) hnone)
    (mounts_demands "Mounts".toList) (under_onMap _ _) (by decide)

end Demands

theorem Rewriter.demands {N : Type} (windows : Bool) (path : GoString) (rewriter : Rewriter) :
    Demands (N := N) rewriter.binds rewriter.mounts Json.obj (rewriter.apply windows path) := by
  cases rewriter with
  | containerSummary => exact container_demands
  | containerConfig => exact container_demands
  | serviceSpec => exact (mounts_demands "Mounts".toList).below.below
  | service => exact (mounts_demands "Mounts".toList).below.below.below
  | task => exact (mounts_demands "Mounts".toList).below.below

/-! ## Bodies -/

section Bodies

variable {N : Type} {windows : Bool} {C : JsonCodec N} {wslDistroName : GoString}
  {rewriter : Rewriter}

theorem rewriteItem_demands {o o' : Json N}
    (h : rewriteItem windows wslDistroName rewriter o = .ok o') :
    WellTyped rewriter.binds rewriter.mounts o := by
  cases o with
  | obj m =>
    obtain ⟨m', hm, -⟩ := bind_ok h
    exact rewriter.demands windows _ m m' hm
  | _ => exact wellTyped_of_not_obj rewriter.fromKey.1 rewriter.fromKey.2 _ fun m hm => nomatch hm

theorem decodes_unmarshals {buf : List UInt8} (h : Decodes C buf) :
    ∃ doc, Unmarshals C buf doc := by
  rcases h with ⟨hc, m, hm⟩ | ⟨hc, items, hi⟩
  · exact ⟨.obj m, .inl ⟨hc, m, hm, rfl⟩⟩
  · exact ⟨.arr items, .inr ⟨hc, items, hi, rfl⟩⟩

theorem unmarshals_unique {buf : List UInt8} {doc doc' : Json N} (h : Unmarshals C buf doc)
    (h' : Unmarshals C buf doc') : doc = doc' := by
  have hne : some openBrace ≠ some openBracket := fun h => openBrace_ne (Option.some.inj h)
  rcases h with ⟨hc, m, hm, rfl⟩ | ⟨hc, items, hi, rfl⟩
  · rcases h' with ⟨-, m', hm', rfl⟩ | ⟨hc', -⟩
    · rw [Except.ok.inj (hm.symm.trans hm')]
    · exact absurd (hc.symm.trans hc') hne
  · rcases h' with ⟨hc', -⟩ | ⟨-, items', hi', rfl⟩
    · exact absurd (hc'.symm.trans hc) hne
    · rw [Except.ok.inj (hi.symm.trans hi')]

/-- A document is rewritten exactly if it is well typed. -/
theorem rewriteRead_returns_iff {buf : List UInt8} {doc : Json N} (h : Unmarshals C buf doc) :
    (∃ result, rewriteRead windows C wslDistroName rewriter buf none = .ok result) ↔
      rewriter.WellTyped doc := by
  obtain ⟨step, hstep, -, hruns⟩ := rewriteRead_unmarshals windows wslDistroName rewriter h
  constructor
  · intro ⟨result, hresult⟩
    rcases h with ⟨hc, m, hm, rfl⟩ | ⟨hc, items, hi, rfl⟩
    · simp only [rewriteRead, if_neg (ne_nil_of_head? hc), jsonItems_of_obj hc hm] at hresult
      obtain ⟨ys, hys, -⟩ := bind_ok hresult
      obtain ⟨y, hy⟩ := mapM_ok_mem hys (List.mem_singleton_self _)
      exact rewriteItem_demands hy
    · simp only [rewriteRead, if_neg (ne_nil_of_head? hc), jsonItems_of_arr hc hi] at hresult
      obtain ⟨ys, hys, -⟩ := bind_ok hresult
      intro o ho
      obtain ⟨y, hy⟩ := mapM_ok_mem hys ho
      exact rewriteItem_demands hy
  · intro hw
    obtain ⟨doc', rfl⟩ := hruns hw
    exact ⟨_, hstep⟩

end Bodies

/-- **Which bodies make the rewriter panic**: never by an index or a slice, and by a type assertion
exactly those whose document has a bind that is no string, a mount whose type is none, or a bind
mount whose source is none. -/
theorem rewriteBody_returns_iff {N : Type} (windows : Bool) (C : JsonCodec N)
    (urlPath wslDistroName : GoString) (body : Option Body) :
    ((∃ result, (rewriteBody windows C urlPath wslDistroName body).1 = .ok result) ↔
        ∀ rewriter buf doc, body = some ⟨buf, none⟩ → getRewriter urlPath = some rewriter →
          Unmarshals C buf doc → rewriter.WellTyped doc) ∧
      (∀ rewriter buf err, rewriteReadGo windows C wslDistroName rewriter buf err
        = asserted (rewriteRead windows C wslDistroName rewriter buf err)) ∧
      ∀ s path, mapPathGo windows s path = .ok (mapPath windows s path) := by
  refine ⟨?_, rewriteReadGo_eq windows C wslDistroName, mapPathGo_eq windows⟩
  by_cases hidle : body = none ∨ getRewriter urlPath = none
  · refine iff_of_true ⟨_, congrArg Prod.fst (rewriteBody_idle hidle)⟩ ?_
    intro rewriter buf doc hbody hrewriter
    rcases hidle with hnone | hnone
    · exact absurd (hbody.symm.trans hnone) (Option.some_ne_none _)
    · exact absurd (hrewriter.symm.trans hnone) (Option.some_ne_none _)
  obtain ⟨hbody, hrewriter⟩ := not_or.mp hidle
  obtain ⟨⟨buf, failure⟩, rfl⟩ := Option.ne_none_iff_exists'.mp hbody
  obtain ⟨rewriter, hrewriter⟩ := Option.ne_none_iff_exists'.mp hrewriter
  rw [rewriteBody_reads hrewriter]
  by_cases hd : failure = none ∧ ∃ doc, Unmarshals C buf doc
  · obtain ⟨rfl, doc, hdoc⟩ := hd
    refine (rewriteRead_returns_iff hdoc).trans ⟨fun hw rewriter' buf' doc' hbuf hrw' hdoc' => ?_,
      fun hall => hall rewriter buf doc rfl hrewriter hdoc⟩
    obtain rfl := Option.some.inj (hrewriter.symm.trans hrw')
    obtain ⟨rfl, -⟩ := Body.mk.inj (Option.some.inj hbuf)
    exact unmarshals_unique hdoc hdoc' ▸ hw
  · have hnot : ¬ (failure = none ∧ Decodes C buf) :=
      fun ⟨hf, hdec⟩ => hd ⟨hf, decodes_unmarshals hdec⟩
    refine iff_of_true ?_ fun rewriter' buf' doc' hbuf _ hdoc' => ?_
    · rcases rewriteRead_not_decodes rewriter hnot with ⟨e, he⟩ | he
      · exact ⟨_, he⟩
      · exact ⟨_, he⟩
    · obtain ⟨rfl, rfl⟩ := Body.mk.inj (Option.some.inj hbuf)
      exact absurd ⟨rfl, doc', hdoc'⟩ hd

def nullBindText : List UInt8 :=
  "\x7b\"HostConfig\":\x7b\"Binds\":[null]\x7d\x7d".toList.map fun c => c.toNat.toUInt8

/-- A codec for the container with one bind, which is null. -/
def nullBindCodec : JsonCodec Unit where
  unmarshalMap buf :=
    if buf = nullBindText then
      .ok [("HostConfig".toList, .obj [("Binds".toList, .arr [.null])])]
    else .error "invalid character".toList
  unmarshalArray _ := .error "invalid character".toList
  marshal _ := .ok nullBindText
  marshal_ok _ := ⟨_, rfl, List.cons_ne_nil _ _⟩

/-- The bind that is null is no string. -/
theorem rewriteBody_panics :
    ¬ ∀ (windows : Bool) (C : JsonCodec Unit) (urlPath wslDistroName : GoString)
        (body : Option Body),
      ∃ result, (rewriteBody windows C urlPath wslDistroName body).1 = .ok result := by
  intro h
  obtain ⟨result, hresult⟩ := h false nullBindCodec "/containers/create".toList "Ubuntu".toList
    (some ⟨nullBindText, none⟩)
  have hpanic : (rewriteBody false nullBindCodec "/containers/create".toList "Ubuntu".toList
      (some ⟨nullBindText, none⟩)).1 = .error .interfaceConversion := by rfl
  exact nomatch hpanic.symm.trans hresult

end ContainerDesktop.Rewrite
