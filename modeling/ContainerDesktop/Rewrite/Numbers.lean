import ContainerDesktop.Rewrite.Frame
import ContainerDesktop.Rounding

/-!
# Numbers through the rewriter

`json.Unmarshal` makes a `float64` of every number of a document, and `json.Marshal`
prints the shortest decimal that is read back as the same `float64`.  An integer
comes out as it went in exactly if it is that decimal (`integers_kept_iff`), as every
integer below `2 ^ 53` is.

A `float64` is 53 significant bits, and integers of 64 bits are far from its greatest
exponent.  Numbers of this size are printed without an exponent.
-/

namespace ContainerDesktop.Rewrite

/-- A number as it is written: an integer, or another text. -/
inductive Literal where
  | integer (n : Int)
  | other (text : GoString)
  deriving DecidableEq

/-- A `float64`, by its value when that is an integer, or else by a text. -/
inductive Float64 where
  | integer (m : Int)
  | other (text : GoString)
  deriving DecidableEq

/-- `strconv.ParseFloat` on the digits of an integer. -/
def parseFloat (n : Int) : Int := n.sign * Rounding.round 53 n.natAbs

/-- `strconv.FormatFloat(m, 'f', -1, 64)`, as the integer that is printed. -/
def formatFloat (m : Int) : Int := m.sign * Rounding.shortest 53 m.natAbs

/-! ## Numbers in documents -/

mutual

/-- The document with other numbers. -/
def Json.mapNumbers {A B : Type} (f : A → B) : Json A → Json B
  | .null => .null
  | .bool b => .bool b
  | .num n => .num (f n)
  | .str s => .str s
  | .arr items => .arr (Json.mapItems f items)
  | .obj fields => .obj (Json.mapFields f fields)

def Json.mapItems {A B : Type} (f : A → B) : List (Json A) → List (Json B)
  | [] => []
  | o :: items => o.mapNumbers f :: Json.mapItems f items

def Json.mapFields {A B : Type} (f : A → B) : List (GoString × Json A) → List (GoString × Json B)
  | [] => []
  | (key, o) :: fields => (key, o.mapNumbers f) :: Json.mapFields f fields

end

section MapNumbers

variable {A B : Type} (f : A → B)

theorem Json.getElem?_mapItems (items : List (Json A)) (i : Nat) :
    (Json.mapItems f items)[i]? = items[i]?.map (Json.mapNumbers f) := by
  induction items generalizing i with
  | nil => simp [Json.mapItems]
  | cons o items ih =>
    cases i with
    | zero => simp [Json.mapItems]
    | succ i => simpa [Json.mapItems] using ih i

theorem Json.lookup_mapFields (fields : List (GoString × Json A)) (key : GoString) :
    (Json.mapFields f fields).lookup key = (fields.lookup key).map (Json.mapNumbers f) := by
  induction fields with
  | nil => simp [Json.mapFields]
  | cons e fields ih =>
    obtain ⟨k, o⟩ := e
    rw [Json.mapFields, List.lookup_cons, List.lookup_cons, ih]
    cases key == k <;> rfl

theorem Json.at_mapNumbers (o : Json A) (p : Position) :
    (o.mapNumbers f).at p = (o.at p).map (Json.mapNumbers f) := by
  induction p generalizing o with
  | nil => rw [Json.at_nil, Json.at_nil, Option.map_some]
  | cons x p ih =>
    cases x with
    | field key =>
      cases o with
      | obj fields =>
        rw [Json.mapNumbers, Json.at_field, Json.at_field, Json.lookup_mapFields]
        cases fields.lookup key with
        | none => rfl
        | some v => exact ih v
      | _ => rfl
    | item i =>
      cases o with
      | arr items =>
        rw [Json.mapNumbers, Json.at_item, Json.at_item, Json.getElem?_mapItems]
        cases items[i]? with
        | none => rfl
        | some v => exact ih v
      | _ => rfl

end MapNumbers

theorem Json.eq_num_of_node {N : Type} {o : Json N} {n : N} (h : o.node = .num n) : o = .num n := by
  cases o with
  | num m => exact congrArg Json.num (Node.num.inj h)
  | _ => exact nomatch h

theorem at_num_of_node {N : Type} {doc doc' : Json N} {p : Position} {n : N}
    (h : (doc'.at p).map Json.node = (doc.at p).map Json.node) (hn : doc.at p = some (.num n)) :
    doc'.at p = some (.num n) := by
  rw [hn] at h
  obtain ⟨o, ho, hnode⟩ := Option.map_eq_some_iff.mp h
  rw [ho, Json.eq_num_of_node hnode]

/-- What is changed at strings keeps its numbers. -/
theorem ChangedAt.at_num {N : Type} {T : Position → Prop} {f : GoString → GoString}
    {doc doc' : Json N} (h : ChangedAt T f doc doc') {p : Position} {n : N}
    (hn : doc.at p = some (.num n)) : doc'.at p = some (.num n) := by
  refine at_num_of_node (h.same p fun hp => ?_) hn
  obtain ⟨s, hs, -⟩ := h.changed p hp
  exact nomatch hn.symm.trans hs

/-! ## Integers that are printed as they were read -/

/-- None of the integers with the `float64` of `n` ends in more zeros, and none that ends in as many
is nearer to it. -/
def Kept (n : Int) : Prop := Rounding.IsShortest 53 n.natAbs

theorem natAbs_parseFloat (n : Int) : (parseFloat n).natAbs = Rounding.round 53 n.natAbs := by
  rw [parseFloat, Int.natAbs_mul, Int.natAbs_natCast]
  by_cases hn : n = 0
  · subst hn
    rfl
  · rw [Int.natAbs_sign_of_ne_zero hn, Nat.one_mul]

theorem sign_parseFloat (n : Int) : (parseFloat n).sign = n.sign := by
  rw [parseFloat, Int.sign_mul, Int.sign_sign]
  by_cases hn : n = 0
  · subst hn
    rfl
  · have hpos : Rounding.round 53 n.natAbs ≠ 0 := by
      rw [Ne, Rounding.round_eq_zero (by omega)]
      omega
    rw [Int.sign_natCast_of_ne_zero hpos, Int.mul_one]

theorem formatFloat_parseFloat_iff (n : Int) : formatFloat (parseFloat n) = n ↔ Kept n := by
  rw [Kept, ← Rounding.shortest_round_iff (by omega), formatFloat, natAbs_parseFloat,
    sign_parseFloat]
  by_cases hn : n = 0
  · subst hn
    exact iff_of_true rfl (by decide)
  · have hself : n.sign * (n.natAbs : Int) = n := Int.sign_mul_natAbs n
    have hsign : n.sign ≠ 0 := mt Int.sign_eq_zero_iff_zero.mp hn
    constructor
    · intro h
      exact Int.ofNat.inj (Int.eq_of_mul_eq_mul_left hsign (h.trans hself.symm))
    · intro h
      rw [h, hself]

/-- Below `2 ^ 53` all are kept. -/
theorem kept_of_lt {n : Int} (h : n.natAbs < 2 ^ 53) : Kept n :=
  Rounding.isShortest_of_lt (by omega) h

/-! ## Bodies -/

/-- An integer of a signed 64-bit type. -/
def InInt64 (n : Int) : Prop := -2 ^ 63 ≤ n ∧ n < 2 ^ 63

theorem InInt64.parseFloat {n : Int} (h : InInt64 n) : (parseFloat n).natAbs < 10 ^ 21 := by
  have hle : n.natAbs ≤ 2 ^ 63 := by
    unfold InInt64 at h
    omega
  have hround := Rounding.round_le_two_pow (p := 53) (by omega) hle
  rw [natAbs_parseFloat]
  omega

/-- The numbers of `encoding/json`: `text` is the document of a text, with its numbers as they are
written. -/
structure NumberText where
  text : List UInt8 → Option (Json Literal)
  decode : Literal → Float64
  encode : Float64 → Literal
  decode_integer : ∀ n, decode (.integer n) = .integer (parseFloat n)
  encode_integer : ∀ m : Int, m.natAbs < 10 ^ 21 → encode (.integer m) = .integer (formatFloat m)

/-- `doc` is the document of the body, and what is unmarshalled is `doc` with a `float64` for each
number. -/
def Reads (K : NumberText) (C : JsonCodec Float64) (buf : List UInt8) (doc : Json Literal) : Prop :=
  K.text buf = some doc ∧ Unmarshals C buf (doc.mapNumbers K.decode)

/-- What is marshalled to these bytes has its numbers at their positions in the
document of the bytes, with a text for each.  In which order the keys of an object
are printed does not matter. -/
def Prints (K : NumberText) (C : JsonCodec Float64) (bytes : List UInt8) : Prop :=
  ∀ o, C.marshal o = .ok bytes → ∃ doc', K.text bytes = some doc' ∧
    ∀ p x, o.at p = some (.num x) → doc'.at p = some (.num (K.encode x))

/-- Every 64-bit integer of `doc` stands at its position in `doc'`. -/
def KeepsIntegers (doc doc' : Json Literal) : Prop :=
  ∀ p n, doc.at p = some (.num (.integer n)) → InInt64 n → doc'.at p = some (.num (.integer n))

section Bodies

variable {K : NumberText} {windows : Bool} {C : JsonCodec Float64}

theorem encode_decode {n : Int} (h : InInt64 n) :
    K.encode (K.decode (.integer n)) = .integer (formatFloat (parseFloat n)) := by
  rw [K.decode_integer, K.encode_integer _ h.parseFloat]

/-- Where a document is read, a 64-bit integer is what its `float64` is printed as. -/
theorem at_printed {T : Position → Prop} {f : GoString → GoString} {doc doc' : Json Literal}
    {o : Json Float64} (ho : ChangedAt T f (doc.mapNumbers K.decode) o)
    (hprinted : ∀ p x, o.at p = some (.num x) → doc'.at p = some (.num (K.encode x)))
    {p : Position} {n : Int} (hn : doc.at p = some (.num (.integer n))) (hint : InInt64 n) :
    doc'.at p = some (.num (.integer (formatFloat (parseFloat n)))) := by
  have hread : (doc.mapNumbers K.decode).at p = some (.num (K.decode (.integer n))) := by
    rw [Json.at_mapNumbers, hn]
    rfl
  rw [hprinted p _ (ho.at_num hread), encode_decode hint]

theorem keepsIntegers_iff {T : Position → Prop} {f : GoString → GoString} {doc doc' : Json Literal}
    {o : Json Float64} (ho : ChangedAt T f (doc.mapNumbers K.decode) o)
    (hprinted : ∀ p x, o.at p = some (.num x) → doc'.at p = some (.num (K.encode x))) :
    KeepsIntegers doc doc' ↔
      ∀ p n, doc.at p = some (.num (.integer n)) → InInt64 n → Kept n := by
  refine forall_congr' fun p => forall_congr' fun n => forall_congr' fun hn =>
    forall_congr' fun hint => ?_
  rw [at_printed ho hprinted hn hint, ← formatFloat_parseFloat_iff]
  constructor
  · intro h
    exact Literal.integer.inj (Json.num.inj (Option.some.inj h))
  · intro h
    rw [h]

end Bodies

/-- **Which integers of a body are in the body returned**: those that are, of all integers with the
same `float64`, the one that ends in the most zeros and is the nearest of these. -/
theorem integers_kept_iff (K : NumberText) (windows : Bool) (C : JsonCodec Float64)
    (urlPath wslDistroName : GoString) (rewriter : Rewriter)
    (hrewriter : getRewriter urlPath = some rewriter) (buf bytes : List UInt8) (doc : Json Literal)
    (hdoc : Reads K C buf doc) (hprints : Prints K C bytes)
    (hbytes : (rewriteBody windows C urlPath wslDistroName (some ⟨buf, none⟩)).1 = .ok
      (.ok bytes)) :
    (∃ doc', K.text bytes = some doc' ∧ KeepsIntegers doc doc') ↔
      ∀ p n, doc.at p = some (.num (.integer n)) → InInt64 n → Kept n := by
  obtain ⟨step, hstep, hchanged, -⟩ := rewriteRead_unmarshals windows wslDistroName rewriter hdoc.2
  rw [rewriteBody_reads hrewriter] at hbytes
  cases step with
  | error e => exact nomatch hstep.symm.trans hbytes
  | ok o =>
    obtain ⟨doc', htext, hprinted⟩ := hprints o (Except.ok.inj (hstep.symm.trans hbytes))
    rw [← keepsIntegers_iff (hchanged o rfl) hprinted, htext]
    constructor
    · intro ⟨doc'', hdoc', hkeeps⟩
      exact Option.some.inj hdoc' ▸ hkeeps
    · intro hkeeps
      exact ⟨doc', rfl, hkeeps⟩

/-! ### A container with two limits -/

/-- As the client writes it. -/
def limitsSent {N : Type} (cpu memory : N) : Json N :=
  .obj [("Memory".toList, .num memory), ("CpuShares".toList, .num cpu)]

/-- As it is printed, with sorted keys. -/
def limitsSorted {N : Type} (cpu memory : N) : Json N :=
  .obj [("CpuShares".toList, .num cpu), ("Memory".toList, .num memory)]

def limitsSentText (cpu memory : Int) : List UInt8 :=
  (["\x7b\"Memory\":".toList, formatInt memory, ",\"CpuShares\":".toList, formatInt cpu,
    "\x7d".toList].flatten).map fun c => c.toNat.toUInt8

def limitsText (cpu memory : Int) : List UInt8 :=
  (["\x7b\"CpuShares\":".toList, formatInt cpu, ",\"Memory\":".toList, formatInt memory,
    "\x7d".toList].flatten).map fun c => c.toNat.toUInt8

def isInteger (m : Int) : Option (Json Float64) → Bool
  | some (.num (.integer k)) => k == m
  | _ => false

/-- An object with these limits and no other keys, in any order. -/
def isLimits (cpu memory : Int) : Json Float64 → Bool
  | .obj fields =>
    fields.all (fun e => e.1 == "CpuShares".toList || e.1 == "Memory".toList) &&
      isInteger cpu (fields.lookup "CpuShares".toList) &&
      isInteger memory (fields.lookup "Memory".toList)
  | _ => false

/-- A codec for the container with these limits. -/
def limitsCodec (cpu memory : Int) : JsonCodec Float64 where
  unmarshalMap buf :=
    if buf = limitsSentText cpu memory then
      .ok [("Memory".toList, .num (.integer (parseFloat memory))),
        ("CpuShares".toList, .num (.integer (parseFloat cpu)))]
    else .error "invalid character".toList
  unmarshalArray _ := .error "invalid character".toList
  marshal o :=
    if isLimits (parseFloat cpu) (parseFloat memory) o then
      .ok (limitsText (formatFloat (parseFloat cpu)) (formatFloat (parseFloat memory)))
    else .ok [openBrace, 125]
  marshal_ok o := by
    split
    · exact ⟨_, rfl, List.cons_ne_nil _ _⟩
    · exact ⟨_, rfl, List.cons_ne_nil _ _⟩

def limitsNumbers (cpu memory : Int) : NumberText where
  text buf :=
    if buf = limitsSentText cpu memory then some (limitsSent (.integer cpu) (.integer memory))
    else if buf = limitsText (formatFloat (parseFloat cpu)) (formatFloat (parseFloat memory)) then
      some (limitsSorted (.integer (formatFloat (parseFloat cpu)))
        (.integer (formatFloat (parseFloat memory))))
    else none
  decode
    | .integer m => .integer (parseFloat m)
    | .other text => .other text
  encode
    | .integer m => .integer (formatFloat m)
    | .other text => .other text
  decode_integer _ := rfl
  encode_integer _ _ := rfl

theorem eq_of_isInteger {m : Int} {o : Option (Json Float64)} (h : isInteger m o = true) :
    o = some (.num (.integer m)) := by
  match o, h with
  | some (.num (.integer k)), h => rw [eq_of_beq h]

theorem at_num_of_num {N : Type} {n m : N} {p : Position} (h : (Json.num n).at p = some (.num m)) :
    p = [] ∧ m = n := by
  match p with
  | [] => exact ⟨rfl, (Json.num.inj (Option.some.inj h)).symm⟩
  | .field _ :: _ => exact nomatch h
  | .item _ :: _ => exact nomatch h

/-- The numbers of the container. -/
theorem isLimits_at {cpu memory : Int} {o : Json Float64} (h : isLimits cpu memory o = true)
    {p : Position} {x : Float64} (hx : o.at p = some (.num x)) :
    p = [.field "CpuShares".toList] ∧ x = .integer cpu ∨
      p = [.field "Memory".toList] ∧ x = .integer memory := by
  match o, p, hx with
  | .obj fields, .field key :: q, hx =>
    simp only [isLimits, Bool.and_eq_true, List.all_eq_true, Bool.or_eq_true] at h
    obtain ⟨⟨hkeys, hcpu⟩, hmemory⟩ := h
    obtain ⟨v, hv, hq⟩ := Json.at_field_iff.mp hx
    obtain ⟨before, behind, rfl, -⟩ := List.lookup_eq_some_iff.mp hv
    rcases hkeys (key, v) (List.mem_append_right _ List.mem_cons_self) with hkey | hkey
    · obtain rfl : key = "CpuShares".toList := eq_of_beq hkey
      obtain rfl := Option.some.inj (hv.symm.trans (eq_of_isInteger hcpu))
      obtain ⟨rfl, rfl⟩ := at_num_of_num hq
      exact .inl ⟨rfl, rfl⟩
    · obtain rfl : key = "Memory".toList := eq_of_beq hkey
      obtain rfl := Option.some.inj (hv.symm.trans (eq_of_isInteger hmemory))
      obtain ⟨rfl, rfl⟩ := at_num_of_num hq
      exact .inr ⟨rfl, rfl⟩

theorem limitsSent_at {N : Type} {cpu memory x : N} {p : Position}
    (h : (limitsSent cpu memory).at p = some (.num x)) : x = cpu ∨ x = memory := by
  match p, h with
  | .field key :: q, h =>
    obtain ⟨v, hv, hq⟩ := Json.at_field_iff.mp h
    obtain ⟨before, behind, hfields, -⟩ := List.lookup_eq_some_iff.mp hv
    have hmem : (key, v) ∈ [("Memory".toList, Json.num memory), ("CpuShares".toList, .num cpu)] :=
      hfields ▸ List.mem_append_right _ List.mem_cons_self
    rcases List.mem_cons.mp hmem with heq | hmem
    · obtain ⟨-, rfl⟩ := Prod.mk.inj heq
      exact .inr (at_num_of_num hq).2
    · obtain ⟨-, rfl⟩ := Prod.mk.inj (List.mem_singleton.mp hmem)
      exact .inl (at_num_of_num hq).2

theorem limits_reads (cpu memory : Int) :
    Reads (limitsNumbers cpu memory) (limitsCodec cpu memory) (limitsSentText cpu memory)
      (limitsSent (.integer cpu) (.integer memory)) :=
  ⟨if_pos rfl, .inl ⟨rfl, _, if_pos rfl, rfl⟩⟩

theorem limits_text (cpu memory : Int) :
    (limitsNumbers cpu memory).text
        (limitsText (formatFloat (parseFloat cpu)) (formatFloat (parseFloat memory)))
      = some (limitsSorted (.integer (formatFloat (parseFloat cpu)))
        (.integer (formatFloat (parseFloat memory)))) := by
  have hne : limitsText (formatFloat (parseFloat cpu)) (formatFloat (parseFloat memory))
      ≠ limitsSentText cpu memory := by
    intro h
    have hthird : some (67 : UInt8) = some 77 := congrArg (·[2]?) h
    exact absurd hthird (by decide)
  simp only [limitsNumbers, if_neg hne, if_true]

theorem limits_prints (cpu memory : Int) :
    Prints (limitsNumbers cpu memory) (limitsCodec cpu memory)
      (limitsText (formatFloat (parseFloat cpu)) (formatFloat (parseFloat memory))) := by
  intro o ho
  refine ⟨_, limits_text cpu memory, fun p x hx => ?_⟩
  cases h : isLimits (parseFloat cpu) (parseFloat memory) o with
  | true =>
    rcases isLimits_at h hx with ⟨rfl, rfl⟩ | ⟨rfl, rfl⟩
    · rfl
    · rfl
  | false =>
    have hother : (limitsCodec cpu memory).marshal o = .ok [openBrace, 125] :=
      if_neg (by rw [h]; decide)
    have hsecond : (125 : UInt8) = 34 :=
      (List.cons.inj (List.cons.inj (Except.ok.inj (hother.symm.trans ho))).2).1
    exact absurd hsecond (by decide)

theorem limits_rewritten (cpu memory : Int) :
    (rewriteBody false (limitsCodec cpu memory) "/containers/create".toList "Ubuntu".toList
        (some ⟨limitsSentText cpu memory, none⟩)).1
      = .ok (.ok (limitsText (formatFloat (parseFloat cpu))
        (formatFloat (parseFloat memory)))) := by
  have hfirst : (limitsSentText cpu memory).head? = some openBrace := rfl
  have hitems : jsonItems (limitsCodec cpu memory) (limitsSentText cpu memory)
      = .ok (some ([limitsSent (.integer (parseFloat cpu)) (.integer (parseFloat memory))],
        false)) :=
    jsonItems_of_obj hfirst (if_pos rfl)
  have hlimits : isLimits (parseFloat cpu) (parseFloat memory)
      (limitsSent (.integer (parseFloat cpu)) (.integer (parseFloat memory))) = true := by
    simp [isLimits, limitsSent, isInteger, List.lookup_cons]
  have hmarshal : (limitsCodec cpu memory).marshal
      (limitsSent (.integer (parseFloat cpu)) (.integer (parseFloat memory)))
      = .ok (limitsText (formatFloat (parseFloat cpu)) (formatFloat (parseFloat memory))) :=
    if_pos hlimits
  have hrewriter : getRewriter "/containers/create".toList = some .containerConfig := by decide
  rw [rewriteBody_reads hrewriter]
  simp only [rewriteRead, if_neg (ne_nil_of_head? hfirst), hitems]
  exact congrArg Except.ok hmarshal

/-- 512 shares and one gibibyte come out as they went in. -/
theorem integers_kept_gibibyte :
    ∃ doc', (limitsNumbers 512 1073741824).text (limitsText 512 1073741824) = some doc' ∧
      KeepsIntegers (limitsSent (.integer 512) (.integer 1073741824)) doc' := by
  have hcpu : formatFloat (parseFloat 512) = 512 := by decide +kernel
  have hmemory : formatFloat (parseFloat 1073741824) = 1073741824 := by decide +kernel
  have hprints := limits_prints 512 1073741824
  have hbytes := limits_rewritten 512 1073741824
  rw [hcpu, hmemory] at hprints hbytes
  refine (integers_kept_iff _ false _ _ _ .containerConfig (by decide) _ _ _ (limits_reads _ _)
    hprints hbytes).mpr fun p n hn _ => ?_
  rcases limitsSent_at hn with h | h
  · obtain rfl := Literal.integer.inj h
    exact kept_of_lt (by decide)
  · obtain rfl := Literal.integer.inj h
    exact kept_of_lt (by decide)

/-- A limit of `2 ^ 53 + 1` comes out as `2 ^ 53`. -/
theorem integers_not_kept :
    ¬ ∀ (K : NumberText) (windows : Bool) (C : JsonCodec Float64) (urlPath wslDistroName : GoString)
        (rewriter : Rewriter) (buf bytes : List UInt8) (doc : Json Literal),
      getRewriter urlPath = some rewriter → Reads K C buf doc → Prints K C bytes →
        (rewriteBody windows C urlPath wslDistroName (some ⟨buf, none⟩)).1 = .ok (.ok bytes) →
        ∃ doc', K.text bytes = some doc' ∧ KeepsIntegers doc doc' := by
  intro h
  have hprinted : formatFloat (parseFloat 9007199254740993) = 9007199254740992 := by decide +kernel
  obtain ⟨doc', hdoc', hkeeps⟩ := h _ false _ _ _ .containerConfig _ _ _ (by decide)
    (limits_reads 512 9007199254740993) (limits_prints _ _) (limits_rewritten _ _)
  obtain rfl := Option.some.inj ((limits_text _ _).symm.trans hdoc')
  have hat := hkeeps [.field "Memory".toList] 9007199254740993 rfl ⟨by decide, by decide⟩
  have hkept := Literal.integer.inj (Json.num.inj (Option.some.inj hat))
  rw [hprinted] at hkept
  exact absurd hkept (by decide)

end ContainerDesktop.Rewrite
