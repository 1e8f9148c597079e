import ContainerDesktop.Effect
import ContainerDesktop.Rewrite.Mappings

/-!
# Bodies through the proxy

`rewriteBody` reads a body to its end before it looks at the first byte, and its
result does not hold the bytes it read.  The two hooks of the proxy, `director`
for requests and `modifyResponse` for responses, put a new body in place when the
result has bytes and no error, and else leave the body that was read.

`Body` is a one-shot stream: what is read is gone.  A panic ends the request and
nothing is forwarded; an error of `modifyResponse` is answered by the proxy with
502.  `kept_iff` says for both hooks exactly which messages come through with
either the rewritten bytes or all the bytes received.
-/

namespace ContainerDesktop.Rewrite

/-- The text of an error. -/
abbrev GoError := GoString

/-- `io.ReadCloser`: the bytes still to be read, and how the read after them fails
unless it is the end of the stream. -/
structure Body where
  unread : List UInt8
  failure : Option GoError

/-- `encoding/json` for a JSON value with numbers `N`.  Every decoded value can be
encoded again, and no encoding is empty. -/
structure JsonCodec (N : Type) where
  unmarshalMap : List UInt8 → Except GoError (JsonMap N)
  unmarshalArray : List UInt8 → Except GoError (List (Json N))
  marshal : Json N → Except GoError (List UInt8)
  marshal_ok : ∀ o, ∃ buf, marshal o = .ok buf ∧ buf ≠ []

/-- `'{'` -/
def openBrace : UInt8 := 123

/-- `'['` -/
def openBracket : UInt8 := 91

theorem openBrace_ne : openBrace ≠ openBracket := by decide

section RewriteBody

variable {N : Type} (windows : Bool) (C : JsonCodec N) (urlPath wslDistroName : GoString)

/-- The base path of the bind sources. -/
def basePath : GoString :=
  "/mnt/".toList ++ if wslDistroName.length > 0 then "wsl/".toList ++ wslDistroName
    else "host".toList

/-- `jsonArray` and `isArray`; `jsonArray` stays nil for a body that does not begin
with `{` or `[`. -/
def jsonItems (buf : List UInt8) : Except GoError (Option (List (Json N) × Bool)) :=
  if buf.head? = some openBrace then do return some ([.obj (← C.unmarshalMap buf)], false)
  else if buf.head? = some openBracket then do return some (← C.unmarshalArray buf, true)
  else return none

def rewriteItem (rewriter : Rewriter) : Json N → Except Panic (Json N)
  | .obj m => do return .obj (← rewriter.apply windows (basePath wslDistroName) m)
  | o => return o

/-- `RewriteBody` after the body was read. -/
def rewriteRead (rewriter : Rewriter) (buf : List UInt8) (err : Option GoError) :
    Except Panic (Except GoError (List UInt8)) :=
  match err with
  | some err => return .error err
  | none =>
    if buf.length = 0 then return .ok buf
    else
      match jsonItems C buf with
      | .error err => return .error err
      | .ok none => return .ok []
      | .ok (some (jsonArray, isArray)) => do
        let jsonArray ← jsonArray.mapM (rewriteItem windows wslDistroName rewriter)
        return C.marshal (if isArray then .arr jsonArray else jsonArray.headD .null)

/-- `io.ReadAll` -/
def readAll (body : Body) : Eff (Option Body) Panic (List UInt8 × Option GoError) := do
  Eff.modify fun _ => some { body with unread := [] }
  return (body.unread, body.failure)

/-- `RewriteBody`.  No bytes stand for the nil slice as well as for the empty one. -/
def rewriteBody : Eff (Option Body) Panic (Except GoError (List UInt8)) := do
  match ← Eff.get with
  | none => return .ok []
  | some body =>
    match getRewriter urlPath with
    | none => return .ok []
    | some rewriter =>
      let (buf, err) ← readAll body
      Eff.ofExcept (rewriteRead windows C wslDistroName rewriter buf err)

/-! ## The hooks -/

/-- What the hooks read and change of a request or a response. -/
structure Message where
  body : Option Body
  contentLength : Int
  contentLengthHeader : Option GoString

/-- `strconv.FormatInt(n, 10)` -/
def formatInt (n : Int) : GoString := (toString n).toList

/-- `proxy.Director`, after the director of the single host proxy. -/
def director (r : Message) : Except Panic Message :=
  match rewriteBody windows C urlPath wslDistroName r.body with
  | (.error p, _) => .error p
  | (.ok result, left) =>
    match result with
    | .ok body =>
      if body.length > 0 then
        .ok { r with body := some ⟨body, none⟩, contentLength := body.length }
      else .ok { r with body := left }
    | .error _ => .ok { r with body := left }

/-- `proxy.ModifyResponse` -/
def modifyResponse (r : Message) : Except Panic (Except GoError Message) :=
  match rewriteBody windows C urlPath wslDistroName r.body with
  | (.error p, _) => .error p
  | (.ok result, left) =>
    match result with
    | .error err => .ok (.error err)
    | .ok body =>
      if body.length > 0 then
        .ok (.ok
          { body := some ⟨body, none⟩,
            contentLength := body.length,
            contentLengthHeader := some (formatInt body.length) })
      else .ok (.ok { r with body := left })

/-! ## What is forwarded -/

/-- The bytes that can still be read. -/
def readable : Option Body → List UInt8
  | none => []
  | some body => body.unread

/-- All the bytes received, and the length announced with them. -/
def Untouched (r r' : Message) : Prop :=
  readable r'.body = readable r.body ∧ r'.contentLength = r.contentLength ∧
    r'.contentLengthHeader = r.contentLengthHeader

/-- The bytes that `rewriteBody` returned, and their length. -/
def Rewritten (r r' : Message) : Prop :=
  ∃ bytes, (rewriteBody windows C urlPath wslDistroName r.body).1 = .ok (.ok bytes) ∧ bytes ≠ [] ∧
    r'.body = some ⟨bytes, none⟩ ∧ r'.contentLength = bytes.length

/-- The body of a request is not lost. -/
def RequestKept (r : Message) : Prop :=
  ∀ r', director windows C urlPath wslDistroName r = .ok r' →
    Rewritten windows C urlPath wslDistroName r r' ∨ Untouched r r'

/-- The body of a response is not lost, unless the response becomes a 502. -/
def ResponseKept (r : Message) : Prop :=
  ∀ r', modifyResponse windows C urlPath wslDistroName r = .ok (.ok r') →
    (Rewritten windows C urlPath wslDistroName r r' ∧
        r'.contentLengthHeader = some (formatInt r'.contentLength)) ∨ Untouched r r'

/-- The body is an object or an array from its first byte on, and can be decoded. -/
def Decodes (buf : List UInt8) : Prop :=
  (buf.head? = some openBrace ∧ ∃ m, C.unmarshalMap buf = .ok m) ∨
    (buf.head? = some openBracket ∧ ∃ items, C.unmarshalArray buf = .ok items)

/-- The bytes of a body that a rewriter gets, if there are any. -/
def Reaches (r : Message) (body : Body) : Prop :=
  r.body = some body ∧ getRewriter urlPath ≠ none ∧ body.unread ≠ []

variable {windows C urlPath wslDistroName}

/-! ### One body -/

theorem jsonItems_some {buf : List UInt8} :
    (∃ x, jsonItems C buf = .ok (some x)) ↔ Decodes C buf := by
  unfold jsonItems Decodes
  by_cases hbrace : buf.head? = some openBrace
  · rw [if_pos hbrace]
    cases hm : C.unmarshalMap buf with
    | error err => simp [hbrace, openBrace_ne, bind, Except.bind]
    | ok m => exact iff_of_true ⟨_, rfl⟩ (.inl ⟨hbrace, m, rfl⟩)
  · rw [if_neg hbrace]
    by_cases hbracket : buf.head? = some openBracket
    · rw [if_pos hbracket]
      cases ha : C.unmarshalArray buf with
      | error err => simp [hbracket, openBrace_ne.symm, bind, Except.bind]
      | ok items => exact iff_of_true ⟨_, rfl⟩ (.inr ⟨hbracket, items, rfl⟩)
    · rw [if_neg hbracket]
      exact iff_of_false (fun ⟨x, h⟩ => nomatch h)
        fun h => h.elim (fun h => hbrace h.1) fun h => hbracket h.1

theorem jsonItems_none {buf : List UInt8} :
    jsonItems C buf = .ok none ↔
      buf.head? ≠ some openBrace ∧ buf.head? ≠ some openBracket := by
  unfold jsonItems
  by_cases hbrace : buf.head? = some openBrace
  · rw [if_pos hbrace]
    refine iff_of_false (fun h => ?_) fun h => h.1 hbrace
    cases hm : C.unmarshalMap buf <;> rw [hm] at h <;> cases h
  · rw [if_neg hbrace]
    by_cases hbracket : buf.head? = some openBracket
    · rw [if_pos hbracket]
      refine iff_of_false (fun h => ?_) fun h => h.2 hbracket
      cases ha : C.unmarshalArray buf <;> rw [ha] at h <;> cases h
    · rw [if_neg hbracket]
      exact iff_of_true rfl ⟨hbrace, hbracket⟩

theorem not_decodes_nil : ¬ Decodes C [] := by
  rintro (⟨h, _⟩ | ⟨h, _⟩)
  · exact absurd h.symm (Option.some_ne_none openBrace)
  · exact absurd h.symm (Option.some_ne_none openBracket)

/-- The outcomes of `RewriteBody` on the bytes it read. -/
theorem rewriteRead_decodes (rewriter : Rewriter) {buf : List UInt8} (hne : buf ≠ [])
    (h : Decodes C buf) :
    (∃ p, rewriteRead windows C wslDistroName rewriter buf none = .error p) ∨
      ∃ bytes, bytes ≠ [] ∧
        rewriteRead windows C wslDistroName rewriter buf none = .ok (.ok bytes) := by
  obtain ⟨⟨jsonArray, isArray⟩, hitems⟩ := jsonItems_some.mpr h
  have hlen : ¬ buf.length = 0 := fun h => hne (List.length_eq_zero_iff.mp h)
  simp only [rewriteRead, if_neg hlen, hitems]
  cases jsonArray.mapM (rewriteItem windows wslDistroName rewriter) with
  | error p => exact .inl ⟨p, rfl⟩
  | ok items =>
    obtain ⟨bytes, hbytes, hne⟩ := C.marshal_ok (if isArray then .arr items else items.headD .null)
    exact .inr ⟨bytes, hne, congrArg Except.ok hbytes⟩

theorem rewriteRead_not_decodes (rewriter : Rewriter) {buf : List UInt8} {err : Option GoError}
    (h : ¬ (err = none ∧ Decodes C buf)) :
    (∃ e, rewriteRead windows C wslDistroName rewriter buf err = .ok (.error e)) ∨
      rewriteRead windows C wslDistroName rewriter buf err = .ok (.ok []) := by
  cases err with
  | some e => exact .inl ⟨e, rfl⟩
  | none =>
    cases buf with
    | nil => exact .inr rfl
    | cons c buf =>
      have hlen : ¬ (c :: buf).length = 0 := by simp
      simp only [rewriteRead, if_neg hlen]
      cases hitems : jsonItems C (c :: buf) with
      | error e => exact .inl ⟨e, rfl⟩
      | ok x =>
        cases x with
        | none => exact .inr rfl
        | some x => exact absurd ⟨rfl, jsonItems_some.mp ⟨x, hitems⟩⟩ h

/-- When `RewriteBody` returns no bytes and no error. -/
theorem rewriteRead_nil (rewriter : Rewriter) {buf : List UInt8} {err : Option GoError} :
    rewriteRead windows C wslDistroName rewriter buf err = .ok (.ok []) ↔
      err = none ∧
        (buf = [] ∨ buf.head? ≠ some openBrace ∧ buf.head? ≠ some openBracket) := by
  by_cases hd : err = none ∧ Decodes C buf
  · obtain ⟨rfl, hd⟩ := hd
    have hne : buf ≠ [] := fun h => not_decodes_nil (h ▸ hd)
    refine iff_of_false (fun h => ?_) fun ⟨_, h⟩ => ?_
    · rcases rewriteRead_decodes rewriter hne hd with ⟨p, hp⟩ | ⟨bytes, hb, hbytes⟩
      · exact nomatch hp.symm.trans h
      · exact hb (Except.ok.inj (Except.ok.inj (hbytes.symm.trans h)))
    · rcases h with h | ⟨hbrace, hbracket⟩
      · exact hne h
      · exact hd.elim (fun h => hbrace h.1) fun h => hbracket h.1
  · cases err with
    | some e => exact iff_of_false (fun h => nomatch h) fun h => nomatch h.1
    | none =>
      cases buf with
      | nil => exact iff_of_true rfl ⟨rfl, .inl rfl⟩
      | cons c buf =>
        have hlen : ¬ (c :: buf).length = 0 := by simp
        rw [← jsonItems_none (C := C), and_iff_right rfl, or_iff_right (List.cons_ne_nil c buf)]
        simp only [rewriteRead, if_neg hlen]
        cases hitems : jsonItems C (c :: buf) with
        | error e => exact iff_of_false (fun h => nomatch h) fun h => nomatch h
        | ok x =>
          cases x with
          | none => exact iff_of_true rfl rfl
          | some x => exact absurd ⟨rfl, jsonItems_some.mp ⟨x, hitems⟩⟩ hd

theorem rewriteBody_idle {body : Option Body} (h : body = none ∨ getRewriter urlPath = none) :
    rewriteBody windows C urlPath wslDistroName body = (.ok (.ok []), body) := by
  cases body with
  | none => rfl
  | some body =>
    rcases h with h | h
    · exact absurd h (Option.some_ne_none body)
    · rw [rewriteBody, Eff.bind_ok (Eff.get_run _)]
      simp only [h]
      rfl

/-- **The body that is left has no bytes.** -/
theorem rewriteBody_reads {rewriter : Rewriter} (h : getRewriter urlPath = some rewriter)
    (body : Body) :
    rewriteBody windows C urlPath wslDistroName (some body)
      = (rewriteRead windows C wslDistroName rewriter body.unread body.failure,
          some { body with unread := [] }) := by
  rw [rewriteBody, Eff.bind_ok (Eff.get_run _)]
  simp only [h]
  rfl

/-- A body with bytes that was read and not replaced is not a rewritten one. -/
theorem not_rewritten {r : Message} {body : Body} :
    ¬ Rewritten windows C urlPath wslDistroName r
      { r with body := some { body with unread := [] } } := by
  intro ⟨bytes, _, hb, he, _⟩
  exact hb (congrArg Body.unread (Option.some.inj he)).symm

theorem not_untouched {r : Message} {body : Body} (hbody : r.body = some body)
    (hne : body.unread ≠ []) : ¬ Untouched r
      { r with body := some { body with unread := [] } } := by
  intro ⟨h, _⟩
  rw [hbody] at h
  exact hne h.symm

/-- A body without bytes is not lost. -/
theorem untouched_empty {r : Message} {body : Body} (hbody : r.body = some body)
    (h : body.unread = []) : Untouched r { r with body := some { body with unread := [] } } :=
  ⟨by rw [hbody]; exact h.symm, rfl, rfl⟩

theorem Reaches.body_eq {r : Message} {body body' : Body} (h : Reaches urlPath r body')
    (hbody : r.body = some body) : body = body' :=
  Option.some.inj (hbody.symm.trans h.1)

/-- A message is handled without a rewriter, or its body is read to the end. -/
theorem rewriteBody_cases (windows : Bool) (C : JsonCodec N) (wslDistroName : GoString)
    (r : Message) : (rewriteBody windows C urlPath wslDistroName r.body = (.ok (.ok []), r.body) ∧
        ∀ body, ¬ Reaches urlPath r body) ∨
      ∃ body rewriter, r.body = some body ∧ getRewriter urlPath = some rewriter ∧
        rewriteBody windows C urlPath wslDistroName r.body
          = (rewriteRead windows C wslDistroName rewriter body.unread body.failure,
              some { body with unread := [] }) := by
  by_cases hidle : r.body = none ∨ getRewriter urlPath = none
  · refine .inl ⟨rewriteBody_idle hidle, fun body h => ?_⟩
    rcases hidle with hnone | hnone
    · exact absurd (hnone ▸ h.1) (Option.some_ne_none body).symm
    · exact h.2.1 hnone
  · obtain ⟨hsome, hrw⟩ := not_or.mp hidle
    obtain ⟨body, hbody⟩ := Option.ne_none_iff_exists'.mp hsome
    obtain ⟨rewriter, hrewriter⟩ := Option.ne_none_iff_exists'.mp hrw
    exact .inr ⟨body, rewriter, hbody, hrewriter, hbody ▸ rewriteBody_reads hrewriter body⟩

/-! ### Requests -/

theorem director_rewritten {r : Message} {bytes : List UInt8} {left : Option Body}
    (hrun : rewriteBody windows C urlPath wslDistroName r.body = (.ok (.ok bytes), left))
    (hb : bytes ≠ []) :
    director windows C urlPath wslDistroName r
      = .ok { r with body := some ⟨bytes, none⟩, contentLength := bytes.length } := by
  have hlen : bytes.length > 0 := List.length_pos_iff.mpr hb
  simp only [director, hrun, if_pos hlen]

theorem director_left {r : Message} {result : Except GoError (List UInt8)} {left : Option Body}
    (hrun : rewriteBody windows C urlPath wslDistroName r.body = (.ok result, left))
    (hr : (∃ e, result = .error e) ∨ result = .ok []) :
    director windows C urlPath wslDistroName r = .ok { r with body := left } := by
  rcases hr with ⟨e, rfl⟩ | rfl
  · simp only [director, hrun]
  · simp only [director, hrun, List.length_nil, Nat.lt_irrefl, if_false, gt_iff_lt]

/-- A request keeps its body when the rewriter does not get one, and else only when
the body was read without an error and could be decoded. -/
theorem requestKept_iff (r : Message) :
    RequestKept windows C urlPath wslDistroName r ↔
      ∀ body, Reaches urlPath r body → body.failure = none ∧ Decodes C body.unread := by
  rcases rewriteBody_cases windows C wslDistroName r with ⟨hrun, hidle⟩ |
    ⟨body, rewriter, hbody, hrw, hrun⟩
  · refine iff_of_true (fun r' h => .inr ?_) fun body h => absurd h (hidle body)
    rw [director_left hrun (.inr rfl)] at h
    obtain rfl := Except.ok.inj h
    exact ⟨rfl, rfl, rfl⟩
  · by_cases hd : body.failure = none ∧ Decodes C body.unread
    · have hne : body.unread ≠ [] := fun h => not_decodes_nil (h ▸ hd.2)
      refine iff_of_true (fun r' h => ?_) fun body' h => ?_
      · rw [hd.1] at hrun
        rcases rewriteRead_decodes rewriter hne hd.2 with ⟨p, hp⟩ | ⟨bytes, hb, hbytes⟩
        · rw [director, hrun, hp] at h
          exact nomatch h
        · rw [hbytes] at hrun
          rw [director_rewritten hrun hb] at h
          obtain rfl := Except.ok.inj h
          exact .inl ⟨bytes, by rw [hrun], hb, rfl, rfl⟩
      · obtain rfl := h.body_eq hbody
        exact hd
    · have hleft : director windows C urlPath wslDistroName r
          = .ok { r with body := some { body with unread := [] } } := by
        rcases rewriteRead_not_decodes rewriter hd with ⟨e, he⟩ | he
        · exact director_left (he ▸ hrun) (.inl ⟨e, rfl⟩)
        · exact director_left (he ▸ hrun) (.inr rfl)
      by_cases hne : body.unread = []
      · refine iff_of_true (fun r' h => .inr ?_) fun body' h => ?_
        · rw [hleft] at h
          obtain rfl := Except.ok.inj h
          exact untouched_empty hbody hne
        · obtain rfl := h.body_eq hbody
          exact absurd hne h.2.2
      · refine iff_of_false (fun h => ?_) fun h => ?_
        · rcases h _ hleft with h | h
          · exact not_rewritten h
          · exact not_untouched hbody hne h
        · exact hd (h body ⟨hbody, hrw ▸ Option.some_ne_none rewriter, hne⟩)

/-! ### Responses -/

theorem modifyResponse_rewritten {r : Message} {bytes : List UInt8} {left : Option Body}
    (hrun : rewriteBody windows C urlPath wslDistroName r.body = (.ok (.ok bytes), left))
    (hb : bytes ≠ []) :
    modifyResponse windows C urlPath wslDistroName r
      = .ok (.ok ⟨some ⟨bytes, none⟩, bytes.length, some (formatInt bytes.length)⟩) := by
  have hlen : bytes.length > 0 := List.length_pos_iff.mpr hb
  simp only [modifyResponse, hrun, if_pos hlen]

theorem modifyResponse_left {r : Message} {left : Option Body}
    (hrun : rewriteBody windows C urlPath wslDistroName r.body = (.ok (.ok []), left)) :
    modifyResponse windows C urlPath wslDistroName r = .ok (.ok { r with body := left }) := by
  simp only [modifyResponse, hrun, List.length_nil, Nat.lt_irrefl, if_false, gt_iff_lt]

/-- A response that does not become a 502 has the bytes that were returned, if there are any. -/
theorem modifyResponse_returned {r r' : Message} {left : Option Body}
    {step : Except Panic (Except GoError (List UInt8))}
    (hrun : rewriteBody windows C urlPath wslDistroName r.body = (step, left))
    (hnil : step ≠ .ok (.ok []))
    (h : modifyResponse windows C urlPath wslDistroName r = .ok (.ok r')) :
    Rewritten windows C urlPath wslDistroName r r' ∧
      r'.contentLengthHeader = some (formatInt r'.contentLength) := by
  match step with
  | .error p =>
    rw [modifyResponse, hrun] at h
    cases h
  | .ok (.error e) =>
    rw [modifyResponse, hrun] at h
    cases h
  | .ok (.ok bytes) =>
    have hb : bytes ≠ [] := fun hb => hnil (hb ▸ rfl)
    rw [modifyResponse_rewritten hrun hb] at h
    obtain rfl := Except.ok.inj (Except.ok.inj h)
    exact ⟨⟨bytes, by rw [hrun], hb, rfl, rfl⟩, rfl⟩

/-- A response keeps its body, or becomes a 502, when the rewriter does not get one, and
else only when the body was not read to its end or begins like an object or an array. -/
theorem responseKept_iff (r : Message) :
    ResponseKept windows C urlPath wslDistroName r ↔
      ∀ body, Reaches urlPath r body → body.failure = none →
        body.unread.head? = some openBrace ∨ body.unread.head? = some openBracket := by
  rcases rewriteBody_cases windows C wslDistroName r with ⟨hrun, hidle⟩ |
    ⟨body, rewriter, hbody, hrw, hrun⟩
  · refine iff_of_true (fun r' h => .inr ?_) fun body h => absurd h (hidle body)
    rw [modifyResponse_left hrun] at h
    obtain rfl := Except.ok.inj (Except.ok.inj h)
    exact ⟨rfl, rfl, rfl⟩
  · by_cases hnil : rewriteRead windows C wslDistroName rewriter body.unread body.failure
      = .ok (.ok [])
    · obtain ⟨hfailure, hbytes⟩ := (rewriteRead_nil rewriter).mp hnil
      have hleft := modifyResponse_left (hnil ▸ hrun)
      by_cases hne : body.unread = []
      · refine iff_of_true (fun r' h => .inr ?_) fun body' h => ?_
        · rw [hleft] at h
          obtain rfl := Except.ok.inj (Except.ok.inj h)
          exact untouched_empty hbody hne
        · obtain rfl := h.body_eq hbody
          exact absurd hne h.2.2
      · have hfirst := hbytes.resolve_left hne
        refine iff_of_false (fun h => ?_) fun h => ?_
        · rcases h _ hleft with h | h
          · exact not_rewritten h.1
          · exact not_untouched hbody hne h
        · rcases h body ⟨hbody, hrw ▸ Option.some_ne_none rewriter, hne⟩ hfailure with h | h
          · exact hfirst.1 h
          · exact hfirst.2 h
    · refine iff_of_true (fun r' h => .inl (modifyResponse_returned hrun hnil h))
        fun body' h hfailure => ?_
      obtain rfl := h.body_eq hbody
      by_cases hbrace : body.unread.head? = some openBrace
      · exact .inl hbrace
      · refine .inr (Classical.not_not.mp fun hbracket => hnil ?_)
        exact (rewriteRead_nil rewriter).mpr ⟨hfailure, .inr ⟨hbrace, hbracket⟩⟩

/-! ### Both directions -/

/-- **Which bodies come through the proxy.** -/
theorem kept_iff (r : Message) :
    (RequestKept windows C urlPath wslDistroName r ↔
        ∀ body, Reaches urlPath r body → body.failure = none ∧ Decodes C body.unread) ∧
      (ResponseKept windows C urlPath wslDistroName r ↔
        ∀ body, Reaches urlPath r body → body.failure = none →
          body.unread.head? = some openBrace ∨ body.unread.head? = some openBracket) :=
  ⟨requestKept_iff r, responseKept_iff r⟩

end RewriteBody

/-- A codec for the empty object and the empty array. -/
def emptyCodec : JsonCodec Unit where
  unmarshalMap buf :=
    if buf = [openBrace, 125] then .ok [] else .error "invalid character".toList
  unmarshalArray buf :=
    if buf = [openBracket, 93] then .ok [] else .error "invalid character".toList
  marshal
    | .arr _ => .ok [openBracket, 93]
    | _ => .ok [openBrace, 125]
  marshal_ok o := by
    cases o with
    | arr _ => exact ⟨_, rfl, List.cons_ne_nil _ _⟩
    | _ => exact ⟨_, rfl, List.cons_ne_nil _ _⟩

/-- A request with a space before its object is forwarded without its body. -/
theorem director_loses_body :
    ¬ ∀ (windows : Bool) (C : JsonCodec Unit) (urlPath wslDistroName : GoString) (r : Message),
      RequestKept windows C urlPath wslDistroName r ∧
      ResponseKept windows C urlPath wslDistroName r := by
  intro h
  have hkept := (h false emptyCodec "/containers/create".toList "Ubuntu".toList
    ⟨some ⟨[32, openBrace, 125], none⟩, 3, none⟩).1
  obtain ⟨-, hd⟩ := (requestKept_iff _).mp hkept _ ⟨rfl, by decide, by decide⟩
  rcases hd with ⟨hfirst, _⟩ | ⟨hfirst, _⟩
  · exact absurd hfirst (by decide)
  · exact absurd hfirst (by decide)

end ContainerDesktop.Rewrite
