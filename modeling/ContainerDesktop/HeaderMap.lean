import Mathlib.Data.List.AList
import Mathlib.Data.List.Basic

/-!
# Header maps

The header of an HTTP message as a map from keys to lists of values.  A program adds and
deletes under any spelling of a key, and the map has the canonical one: a letter is in upper
case at the start and after a hyphen, and else in lower case.

`lookup_deleteAll` and `values_addAll` describe loops over keys and over entries.  Neither
depends on the order of the loop as long as the keys of the entries are canonical:
`Canonical.values_addAll`.
-/

/-- Each key has the list of its values.  `none` is the list that was never made. -/
abbrev HeaderMap := AList fun _ : List Char => Option (List (List Char))

namespace HeaderMap

/-- The characters of a token, which are the ones a key can have. -/
def isTokenChar (c : Char) : Bool := c.isAlphanum || "!#$%&'*+-.^_`|~".toList.contains c

/-- The canonical spelling of the rest of a key.  `start` says whether a word begins. -/
def spell (start : Bool) : List Char → List Char
  | [] => []
  | c :: cs => (if start then c.toUpper else c.toLower) :: spell (c == '-') cs

/-- The canonical spelling of a key.  What is no token stays as it is. -/
def canonicalKey (key : List Char) : List Char :=
  if key.all isTokenChar then spell true key else key

variable (h : HeaderMap) (key value : List Char)

/-- The values under a key that is canonical already. -/
def values : List (List Char) := ((h.lookup key).getD none).getD []

def get : List Char := (h.values (canonicalKey key)).headD []

def add : HeaderMap := h.insert (canonicalKey key) (some (h.values (canonicalKey key) ++ [value]))

def set : HeaderMap := h.insert (canonicalKey key) (some [value])

def del : HeaderMap := h.erase (canonicalKey key)

def deleteAll (keys : List (List Char)) : HeaderMap := keys.foldl del h

/-- Adds all the values of some entries, one after the other. -/
def addAll (entries : List (Σ _ : List Char, Option (List (List Char)))) : HeaderMap :=
  entries.foldl (fun h e => (e.2.getD []).foldl (fun h v => h.add e.1 v) h) h

/-! ## Spelling a key twice -/

section Spelling

theorem isUpper_iff {c : Char} : c.isUpper = true ↔ 65 ≤ c.toNat ∧ c.toNat ≤ 90 := by
  delta Char.isUpper
  rw [decide_eq_true_iff]
  exact Iff.rfl

theorem isLower_iff {c : Char} : c.isLower = true ↔ 97 ≤ c.toNat ∧ c.toNat ≤ 122 := by
  delta Char.isLower
  rw [Bool.and_eq_true, decide_eq_true_iff, decide_eq_true_iff]
  exact Iff.rfl

theorem toUpper_of_not_isLower {c : Char} (h : ¬ c.isLower = true) : c.toUpper = c :=
  dif_neg fun hc => h (isLower_iff.mpr hc)

theorem toLower_of_not_isUpper {c : Char} (h : ¬ c.isUpper = true) : c.toLower = c :=
  dif_neg fun hc => h (isUpper_iff.mpr hc)

theorem isUpper_toUpper {c : Char} (h : c.isLower = true) : c.toUpper.isUpper = true := by
  have hrange := isLower_iff.mp h
  have hval : c.toUpper.toNat = (c.val + ('A'.val - 'a'.val)).toNat := by
    have hc : 'a'.val ≤ c.val ∧ c.val ≤ 'z'.val := hrange
    delta Char.toUpper
    rw [dif_pos hc]
    rfl
  have hdiff : ('A'.val - 'a'.val).toNat = 4294967264 := by decide
  have hnat : c.val.toNat = c.toNat := rfl
  rw [UInt32.toNat_add] at hval
  exact isUpper_iff.mpr (by omega)

theorem isLower_toLower {c : Char} (h : c.isUpper = true) : c.toLower.isLower = true := by
  have hrange := isUpper_iff.mp h
  have hval : c.toLower.toNat = (c.val + ('a'.val - 'A'.val)).toNat := by
    have hc : c.val ≥ 'A'.val ∧ c.val ≤ 'Z'.val := hrange
    delta Char.toLower
    rw [dif_pos hc]
    rfl
  have hdiff : ('a'.val - 'A'.val).toNat = 32 := by decide
  have hnat : c.val.toNat = c.toNat := rfl
  rw [UInt32.toNat_add] at hval
  exact isLower_iff.mpr (by omega)

theorem not_isLower_of_isUpper {c : Char} (h : c.isUpper = true) : ¬ c.isLower = true := by
  intro hlower
  have hu := isUpper_iff.mp h
  have hl := isLower_iff.mp hlower
  omega

/-- The letter that `spell` writes. -/
def spellChar (start : Bool) (c : Char) : Char := if start then c.toUpper else c.toLower

theorem isAlpha_of_isUpper {c : Char} (h : c.isUpper = true) : c.isAlpha = true :=
  Bool.or_eq_true_iff.mpr (Or.inl h)

theorem isAlpha_of_isLower {c : Char} (h : c.isLower = true) : c.isAlpha = true :=
  Bool.or_eq_true_iff.mpr (Or.inr h)

/-- A letter is written in the case of its place, and everything else stays as it is. -/
theorem spellChar_cases (start : Bool) (c : Char) :
    spellChar start c = c ∨ c.isAlpha = true ∧ (spellChar start c).isAlpha = true := by
  cases start with
  | true =>
    by_cases hc : c.isLower = true
    · exact Or.inr ⟨isAlpha_of_isLower hc, isAlpha_of_isUpper (isUpper_toUpper hc)⟩
    · exact Or.inl (toUpper_of_not_isLower hc)
  | false =>
    by_cases hc : c.isUpper = true
    · exact Or.inr ⟨isAlpha_of_isUpper hc, isAlpha_of_isLower (isLower_toLower hc)⟩
    · exact Or.inl (toLower_of_not_isUpper hc)

theorem spellChar_spellChar (start : Bool) (c : Char) :
    spellChar start (spellChar start c) = spellChar start c := by
  cases start with
  | true =>
    show c.toUpper.toUpper = c.toUpper
    by_cases hc : c.isLower = true
    · exact toUpper_of_not_isLower (not_isLower_of_isUpper (isUpper_toUpper hc))
    · rw [toUpper_of_not_isLower hc, toUpper_of_not_isLower hc]
  | false =>
    show c.toLower.toLower = c.toLower
    by_cases hc : c.isUpper = true
    · exact toLower_of_not_isUpper fun hupper => not_isLower_of_isUpper hupper (isLower_toLower hc)
    · rw [toLower_of_not_isUpper hc, toLower_of_not_isUpper hc]

theorem isTokenChar_spellChar {start : Bool} {c : Char} (hc : isTokenChar c = true) :
    isTokenChar (spellChar start c) = true := by
  rcases spellChar_cases start c with heq | ⟨_, halpha⟩
  · rw [heq]
    exact hc
  · exact Bool.or_eq_true_iff.mpr (Or.inl (Bool.or_eq_true_iff.mpr (Or.inl halpha)))

/-- A hyphen stays one, and no letter becomes one. -/
theorem spellChar_hyphen (start : Bool) (c : Char) : (spellChar start c == '-') = (c == '-') := by
  rcases spellChar_cases start c with heq | ⟨hc, halpha⟩
  · rw [heq]
  · have hne : ∀ d : Char, d.isAlpha = true → (d == '-') = false := by
      intro d hd
      have hd' : d ≠ '-' := by
        rintro rfl
        exact absurd hd (by decide)
      simpa using hd'
    rw [hne _ halpha, hne _ hc]

theorem spell_cons (start : Bool) (c : Char) (cs : List Char) :
    spell start (c :: cs) = spellChar start c :: spell (c == '-') cs := rfl

theorem all_spell (start : Bool) (cs : List Char) (hcs : cs.all isTokenChar = true) :
    (spell start cs).all isTokenChar = true := by
  induction cs generalizing start with
  | nil => rfl
  | cons c cs ih =>
    rw [List.all_cons, Bool.and_eq_true] at hcs
    rw [spell_cons, List.all_cons, Bool.and_eq_true]
    exact ⟨isTokenChar_spellChar hcs.1, ih _ hcs.2⟩

theorem spell_spell (start : Bool) (cs : List Char) :
    spell start (spell start cs) = spell start cs := by
  induction cs generalizing start with
  | nil => rfl
  | cons c cs ih => rw [spell_cons, spell_cons, spellChar_spellChar, spellChar_hyphen, ih]

theorem canonicalKey_canonicalKey : canonicalKey (canonicalKey key) = canonicalKey key := by
  by_cases hkey : key.all isTokenChar = true
  · have hspell : canonicalKey key = spell true key := if_pos hkey
    rw [hspell, canonicalKey, if_pos (all_spell true key hkey), spell_spell]
  · have hsame : canonicalKey key = key := if_neg hkey
    rw [hsame, hsame]

end Spelling

/-! ## Single steps -/

section Steps

variable {h : HeaderMap} {key value k : List Char}

@[simp] theorem lookup_set : (h.set key value).lookup k
    = if k = canonicalKey key then some (some [value]) else h.lookup k := by
  split
  · rename_i hk
    rw [hk, set, AList.lookup_insert]
  · rename_i hk
    rw [set, AList.lookup_insert_ne hk]

@[simp] theorem lookup_del : (h.del key).lookup k = if k = canonicalKey key then none
    else h.lookup k := by
  split
  · rename_i hk
    rw [hk, del, AList.lookup_erase]
  · rename_i hk
    rw [del, AList.lookup_erase_ne hk]

theorem values_add : (h.add key value).values k
    = if k = canonicalKey key then h.values k ++ [value] else h.values k := by
  split
  · rename_i hk
    rw [hk, values, add, AList.lookup_insert]
    rfl
  · rename_i hk
    rw [values, add, AList.lookup_insert_ne hk, values]

theorem mem_add : k ∈ h.add key value ↔ k = canonicalKey key ∨ k ∈ h := AList.mem_insert h

theorem values_of_lookup {h' : HeaderMap} (hl : h'.lookup k = h.lookup k) :
    h'.values k = h.values k := by
  rw [values, values, hl]

theorem values_eq_nil (hk : h.lookup k = none) : h.values k = [] := by
  rw [values, hk]
  rfl

end Steps

/-! ## Loops -/

section Loops

variable {h : HeaderMap} {key value k : List Char}

theorem lookup_deleteAll (keys : List (List Char)) :
    (h.deleteAll keys).lookup k = if k ∈ keys.map canonicalKey then none else h.lookup k := by
  induction keys generalizing h with
  | nil => simp [deleteAll]
  | cons key keys ih =>
    show ((h.del key).deleteAll keys).lookup k = _
    rw [ih, lookup_del, List.map_cons]
    by_cases hk : k ∈ keys.map canonicalKey
    · rw [if_pos hk, if_pos (List.mem_cons_of_mem _ hk)]
    · rw [if_neg hk]
      by_cases hkey : k = canonicalKey key
      · rw [if_pos hkey, if_pos (hkey ▸ List.mem_cons_self)]
      · rw [if_neg hkey, if_neg (by simp [hkey, hk])]

theorem values_foldl_add (vs : List (List Char)) :
    (vs.foldl (fun h v => h.add key v) h).values k
      = if k = canonicalKey key then h.values k ++ vs else h.values k := by
  induction vs generalizing h with
  | nil => simp
  | cons v vs ih =>
    rw [List.foldl_cons, ih, values_add]
    split
    · rw [List.append_assoc]
      rfl
    · rfl

/-- The values that some entries have for a key, under any spelling. -/
def spelledValues (entries : List (Σ _ : List Char, Option (List (List Char)))) (k : List Char) :
    List (List Char) :=
  entries.flatMap fun e => if k = canonicalKey e.1 then e.2.getD [] else []

theorem values_addAll (entries : List (Σ _ : List Char, Option (List (List Char)))) :
    (h.addAll entries).values k = h.values k ++ spelledValues entries k := by
  induction entries generalizing h with
  | nil => simp [addAll, spelledValues]
  | cons e entries ih =>
    have hhead : ((e.2.getD []).foldl (fun h v => h.add e.1 v) h).values k
        = h.values k ++ if k = canonicalKey e.1 then e.2.getD [] else [] := by
      rw [values_foldl_add]
      split
      · rfl
      · rw [List.append_nil]
    show (addAll ((e.2.getD []).foldl (fun h v => h.add e.1 v) h) entries).values k = _
    rw [ih, hhead, List.append_assoc]
    rfl

end Loops

/-! ## Canonical maps -/

/-- Every key is spelled the canonical way. -/
def Canonical : Prop := ∀ k ∈ h, canonicalKey k = k

section Canonical

variable {h : HeaderMap} {key value k : List Char}

theorem canonical_empty : Canonical ∅ := fun k hk => absurd hk (AList.notMem_empty k)

theorem Canonical.add (hh : h.Canonical) : (h.add key value).Canonical := by
  intro k hk
  rcases mem_add.mp hk with rfl | hk
  · exact canonicalKey_canonicalKey key
  · exact hh k hk

theorem Canonical.set (hh : h.Canonical) : (h.set key value).Canonical := by
  intro k hk
  rcases (AList.mem_insert h).mp hk with rfl | hk
  · exact canonicalKey_canonicalKey key
  · exact hh k hk

theorem Canonical.del (hh : h.Canonical) : (h.del key).Canonical :=
  fun k hk => hh k (AList.mem_erase.mp hk).2

theorem Canonical.deleteAll (hh : h.Canonical) (keys : List (List Char)) :
    (h.deleteAll keys).Canonical := by
  induction keys generalizing h with
  | nil => exact hh
  | cons key keys ih => exact ih hh.del

theorem Canonical.foldl_add (hh : h.Canonical) (vs : List (List Char)) :
    Canonical (vs.foldl (fun h v => h.add key v) h) := by
  induction vs generalizing h with
  | nil => exact hh
  | cons v vs ih => exact ih hh.add

theorem Canonical.addAll (hh : h.Canonical)
    (entries : List (Σ _ : List Char, Option (List (List Char)))) :
    (h.addAll entries).Canonical := by
  induction entries generalizing h with
  | nil => exact hh
  | cons e entries ih => exact ih (hh.foldl_add (e.2.getD []))

/-- The entries of a canonical map have at most one spelling of a key. -/
theorem Canonical.spelledValues (hh : h.Canonical)
    (entries : List (Σ _ : List Char, Option (List (List Char))))
    (hperm : entries.Perm h.entries) : HeaderMap.spelledValues entries k = h.values k := by
  have hkeys : entries.NodupKeys := (List.perm_nodupKeys hperm).mpr h.nodupKeys
  have hspelled : ∀ e ∈ entries, canonicalKey e.1 = e.1 := fun e he =>
    hh e.1 (AList.mem_keys.mpr (List.mem_map_of_mem (hperm.subset he)))
  have hlookup : h.lookup k = entries.dlookup k := (List.perm_dlookup k hkeys hperm).symm
  rw [values, hlookup]
  clear hlookup hperm
  induction entries with
  | nil => rfl
  | cons e entries ih =>
    obtain ⟨hnotin, hrest⟩ := List.nodupKeys_cons.mp hkeys
    have hcons : HeaderMap.spelledValues (e :: entries) k
        = (if k = e.1 then e.2.getD [] else []) ++ HeaderMap.spelledValues entries k := by
      have he := hspelled e List.mem_cons_self
      show (if k = canonicalKey e.1 then e.2.getD [] else []) ++ _ = _
      rw [he]
      rfl
    rw [hcons, ih hrest fun e' he' => hspelled e' (List.mem_cons_of_mem _ he')]
    obtain ⟨key, vs⟩ := e
    by_cases hk : k = key
    · subst hk
      have hnone : entries.dlookup k = none := List.dlookup_eq_none.mpr hnotin
      rw [if_pos rfl, hnone, List.dlookup_cons_eq]
      exact List.append_nil _
    · rw [if_neg hk, List.dlookup_cons_ne _ _ hk, List.nil_append]

/-- A loop over the entries of a canonical map adds its values, in whichever order it meets the
keys. -/
theorem Canonical.values_addAll {src : HeaderMap} (hsrc : src.Canonical)
    {entries : List (Σ _ : List Char, Option (List (List Char)))}
    (hperm : entries.Perm src.entries) :
    (h.addAll entries).values k = h.values k ++ src.values k := by
  rw [HeaderMap.values_addAll, hsrc.spelledValues entries hperm]

end Canonical

end HeaderMap
