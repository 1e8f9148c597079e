import ContainerDesktop.Rewrite.Rewriters

/-!
# Positions in a JSON document

A position is the way down to one value of a document, through the keys of
objects and the indices of arrays.  What stands at a position, without the values
below it, is its node: the kind of the value with its text or number, its length
or its keys.

`ChangedAt T f doc doc'` says that the strings at the positions `T` went through
`f` once and that nothing else is different.  It is built up along a document:
from the value under a key to the object, from the items to the array, and from
two changes at different positions to one.
-/

namespace ContainerDesktop.Rewrite

inductive Place where
  | field (key : GoString)
  | item (i : Nat)
  deriving DecidableEq

abbrev Position := List Place

/-- A value without the values in it. -/
inductive Node (N : Type) where
  | null
  | bool (b : Bool)
  | num (n : N)
  | str (s : GoString)
  | arr (length : Nat)
  | obj (keys : List GoString)

variable {N : Type}

def Json.node : Json N → Node N
  | .null => .null
  | .bool b => .bool b
  | .num n => .num n
  | .str s => .str s
  | .arr items => .arr items.length
  | .obj m => .obj (m.map Prod.fst)

def Json.at : Json N → Position → Option (Json N)
  | o, [] => some o
  | .obj m, .field key :: p => (m.lookup key).bind fun o => o.at p
  | .arr items, .item i :: p => items[i]?.bind fun o => o.at p
  | _, _ :: _ => none

@[simp] theorem Json.at_nil (o : Json N) : o.at [] = some o := by
  cases o <;> rfl

@[simp] theorem Json.at_field (m : JsonMap N) (key : GoString) (p : Position) :
    (Json.obj m).at (.field key :: p) = (m.lookup key).bind fun o => o.at p := rfl

theorem Json.at_field_iff {m : JsonMap N} {key : GoString} {p : Position} {v : Json N} :
    (Json.obj m).at (.field key :: p) = some v ↔ ∃ o, m.lookup key = some o ∧ o.at p = some v :=
  Option.bind_eq_some_iff

@[simp] theorem Json.at_item (items : List (Json N)) (i : Nat) (p : Position) :
    (Json.arr items).at (.item i :: p) = items[i]?.bind fun o => o.at p := rfl

theorem Json.at_item_iff {items : List (Json N)} {i : Nat} {p : Position} {v : Json N} :
    (Json.arr items).at (.item i :: p) = some v ↔ ∃ o, items[i]? = some o ∧ o.at p = some v :=
  Option.bind_eq_some_iff

theorem Json.at_str (s : GoString) (x : Place) (p : Position) :
    (Json.str (N := N) s).at (x :: p) = none := by
  cases x <;> rfl

theorem Json.at_field_of_not_obj {o : Json N} (h : ∀ m, o ≠ .obj m) (key : GoString)
    (p : Position) : o.at (.field key :: p) = none := by
  cases o with
  | obj m => exact absurd rfl (h m)
  | _ => rfl

theorem Json.at_item_of_not_arr {o : Json N} (h : ∀ items, o ≠ .arr items) (i : Nat)
    (p : Position) : o.at (.item i :: p) = none := by
  cases o with
  | arr items => exact absurd rfl (h items)
  | _ => rfl

theorem Json.eq_str_of_node {o : Json N} {s : GoString} (h : o.node = .str s) : o = .str s := by
  cases o with
  | str t => exact congrArg Json.str (Node.str.inj h)
  | _ => exact nomatch h

theorem at_str_of_node {doc doc' : Json N} {p : Position} {s : GoString}
    (h : (doc'.at p).map Json.node = (doc.at p).map Json.node) (hs : doc.at p = some (.str s)) :
    doc'.at p = some (.str s) := by
  rw [hs] at h
  obtain ⟨o, ho, hn⟩ := Option.map_eq_some_iff.mp h
  rw [ho, Json.eq_str_of_node hn]

/-! ## Maps -/

theorem JsonMap.lookup_update_self (m : JsonMap N) {key : GoString} {o : Json N}
    (h : m.lookup key = some o) (o' : Json N) : (m.update key o').lookup key = some o' := by
  induction m with
  | nil => exact nomatch h
  | cons e m ih =>
    obtain ⟨k, v⟩ := e
    by_cases hk : k = key
    · subst hk
      simp [update]
    · have hne : (key == k) = false := beq_eq_false_iff_ne.mpr (Ne.symm hk)
      rw [List.lookup_cons, hne] at h
      rw [update, List.map_cons, if_neg hk, List.lookup_cons, hne]
      exact ih h

theorem JsonMap.lookup_update_of_ne (m : JsonMap N) {key other : GoString} (hne : other ≠ key)
    (o : Json N) : (m.update key o).lookup other = m.lookup other := by
  induction m with
  | nil => rfl
  | cons e m ih =>
    obtain ⟨k, v⟩ := e
    by_cases hk : k = key
    · subst hk
      have hb : (other == k) = false := beq_eq_false_iff_ne.mpr hne
      rw [update, List.map_cons, if_pos rfl, List.lookup_cons, List.lookup_cons, hb]
      exact ih
    · rw [update, List.map_cons, if_neg hk, List.lookup_cons, List.lookup_cons]
      cases (other == k) with
      | true => rfl
      | false => exact ih

theorem JsonMap.keys_update (m : JsonMap N) (key : GoString) (o : Json N) :
    (m.update key o).map Prod.fst = m.map Prod.fst := by
  rw [update, List.map_map]
  refine List.map_congr_left fun e _ => ?_
  show (if e.1 = key then (e.1, o) else e).1 = e.1
  split <;> rfl

/-! ## Changes -/

/-- The strings at the positions `T` went through `f` once, and nothing else changed. -/
structure ChangedAt (T : Position → Prop) (f : GoString → GoString) (doc doc' : Json N) : Prop where
  changed : ∀ p, T p → ∃ s, doc.at p = some (.str s) ∧ doc'.at p = some (.str (f s))
  same : ∀ p, ¬ T p → (doc'.at p).map Json.node = (doc.at p).map Json.node

namespace ChangedAt

variable {T T' : Position → Prop} {f : GoString → GoString} {doc doc' doc'' : Json N}

theorem refl (h : ∀ p, ¬ T p) : ChangedAt T f doc doc where
  changed := fun p hp => absurd hp (h p)
  same := fun _ _ => rfl

theorem congr (h : ChangedAt T f doc doc') (hT : ∀ p, T' p ↔ T p) : ChangedAt T' f doc doc' where
  changed := fun p hp => h.changed p ((hT p).mp hp)
  same := fun p hp => h.same p fun ht => hp ((hT p).mpr ht)

theorem value (s : GoString) : ChangedAt (N := N) (fun p => p = []) f (.str s) (.str (f s)) where
  changed := by
    intro p hp
    subst hp
    exact ⟨s, Json.at_nil _, Json.at_nil _⟩
  same := by
    intro p hp
    cases p with
    | nil => exact absurd rfl hp
    | cons x p => rw [Json.at_str, Json.at_str]

/-- From the value under a key to the object. -/
theorem update {m : JsonMap N} {key : GoString} {o o' : Json N} (hm : m.lookup key = some o)
    (h : ChangedAt T f o o') :
    ChangedAt (fun p => ∃ q, p = .field key :: q ∧ T q) f (.obj m) (.obj (m.update key o')) where
  changed := by
    intro p hp
    obtain ⟨q, rfl, hq⟩ := hp
    obtain ⟨s, hs, hs'⟩ := h.changed q hq
    refine ⟨s, ?_, ?_⟩
    · rw [Json.at_field, hm]
      exact hs
    · rw [Json.at_field, m.lookup_update_self hm]
      exact hs'
  same := by
    intro p hp
    match p with
    | [] =>
      rw [Json.at_nil, Json.at_nil, Option.map_some, Option.map_some, Json.node, Json.node,
        m.keys_update]
    | .item i :: q => rfl
    | .field k :: q =>
      by_cases hk : k = key
      · subst hk
        rw [Json.at_field, Json.at_field, m.lookup_update_self hm, hm]
        exact h.same q fun hq => hp ⟨q, rfl, hq⟩
      · rw [Json.at_field, Json.at_field, m.lookup_update_of_ne hk]

/-- From the items to the array. -/
theorem items {U : Json N → Position → Prop} {os os' : List (Json N)}
    (hlen : os'.length = os.length)
    (h : ∀ (i : Nat) (o o' : Json N), os[i]? = some o → os'[i]? = some o' →
      ChangedAt (U o) f o o') :
    ChangedAt (fun p => ∃ (i : Nat) (o : Json N) (q : Position),
      os[i]? = some o ∧ p = .item i :: q ∧ U o q) f (.arr os) (.arr os') where
  changed := by
    intro p hp
    obtain ⟨i, o, q, ho, rfl, hq⟩ := hp
    obtain ⟨hi, -⟩ := List.getElem?_eq_some_iff.mp ho
    have ho' : os'[i]? = some os'[i] := List.getElem?_eq_getElem (by omega)
    obtain ⟨s, hs, hs'⟩ := (h i o os'[i] ho ho').changed q hq
    refine ⟨s, ?_, ?_⟩
    · rw [Json.at_item, ho]
      exact hs
    · rw [Json.at_item, ho']
      exact hs'
  same := by
    intro p hp
    match p with
    | [] =>
      rw [Json.at_nil, Json.at_nil, Option.map_some, Option.map_some, Json.node, Json.node, hlen]
    | .field k :: q => rfl
    | .item i :: q =>
      rw [Json.at_item, Json.at_item]
      by_cases hi : i < os.length
      · have ho : os[i]? = some os[i] := List.getElem?_eq_getElem hi
        have ho' : os'[i]? = some os'[i] := List.getElem?_eq_getElem (by omega)
        rw [ho, ho']
        exact (h i _ _ ho ho').same q fun hq => hp ⟨i, _, q, ho, rfl, hq⟩
      · rw [List.getElem?_eq_none (by omega : os.length ≤ i),
          List.getElem?_eq_none (by omega : os'.length ≤ i)]

/-- No position is changed twice. -/
theorem trans (h : ChangedAt T f doc doc') (h' : ChangedAt T' f doc' doc'')
    (hdisjoint : ∀ p, T p → ¬ T' p) : ChangedAt (fun p => T p ∨ T' p) f doc doc'' where
  changed := by
    intro p hp
    by_cases ht : T p
    · obtain ⟨s, hs, hs'⟩ := h.changed p ht
      exact ⟨s, hs, at_str_of_node (h'.same p (hdisjoint p ht)) hs'⟩
    · obtain ⟨s, hs, hs'⟩ := h'.changed p (hp.resolve_left ht)
      exact ⟨s, at_str_of_node (h.same p ht).symm hs, hs'⟩
  same := by
    intro p hp
    rw [h'.same p fun ht => hp (.inr ht), h.same p fun ht => hp (.inl ht)]

end ChangedAt

end ContainerDesktop.Rewrite
