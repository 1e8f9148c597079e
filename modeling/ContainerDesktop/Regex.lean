/-!
# Regular expressions over any alphabet

`Matches r s t` says that `r` can match a beginning of `s` and leave `t`.  A
relation on what is left, and not on what is matched, lets an anchor at the end
of the text be an expression like the others.  `remainders` computes all the `t`
of a given `s` (`mem_remainders`); a round of a star that matches nothing is not
taken, so the rounds are bounded by the length of the text.

`search` is the unanchored search, a match at some place of the text.  Whether
there is a match does not depend on a star or an option being greedy or lazy, so
the expressions do not tell these apart.
-/

/-- Regular expressions over `α`. -/
inductive Regex (α : Type) where
  | eps
  | char (p : α → Bool)
  | seq (r q : Regex α)
  | alt (r q : Regex α)
  | star (r : Regex α)
  | textEnd

namespace Regex

variable {α : Type}

/-- `r` or nothing. -/
def opt (r : Regex α) : Regex α := alt r eps

/-- The text `l`. -/
def lit [DecidableEq α] : List α → Regex α
  | [] => eps
  | a :: l => seq (char (· = a)) (lit l)

/-! ## Matching -/

/-- `r` can match a beginning of the first text and leave the second. -/
inductive Matches : Regex α → List α → List α → Prop where
  | eps {s} : Matches eps s s
  | char {p a s} (h : p a = true) : Matches (char p) (a :: s) s
  | seq {r q s t u} (h₁ : Matches r s t) (h₂ : Matches q t u) : Matches (seq r q) s u
  | altLeft {r q s t} (h : Matches r s t) : Matches (alt r q) s t
  | altRight {r q s t} (h : Matches q s t) : Matches (alt r q) s t
  | starNil {r s} : Matches (star r) s s
  | starCons {r s t u} (h₁ : Matches r s t) (h₂ : Matches (star r) t u) : Matches (star r) s u
  | textEnd : Matches textEnd [] []

/-- What is left is an end of the text. -/
theorem Matches.suffix {r : Regex α} {s t : List α} (h : Matches r s t) : t <:+ s := by
  induction h with
  | eps => exact List.suffix_refl _
  | char _ => exact List.suffix_cons _ _
  | seq _ _ ih₁ ih₂ => exact ih₂.trans ih₁
  | altLeft _ ih => exact ih
  | altRight _ ih => exact ih
  | starNil => exact List.suffix_refl _
  | starCons _ _ ih₁ ih₂ => exact ih₂.trans ih₁
  | textEnd => exact List.suffix_refl _

theorem matches_seq {r q : Regex α} {s u : List α} :
    Matches (seq r q) s u ↔ ∃ t, Matches r s t ∧ Matches q t u := by
  refine ⟨fun h => ?_, fun ⟨t, h₁, h₂⟩ => .seq h₁ h₂⟩
  cases h with
  | seq h₁ h₂ => exact ⟨_, h₁, h₂⟩

theorem matches_alt {r q : Regex α} {s t : List α} :
    Matches (alt r q) s t ↔ Matches r s t ∨ Matches q s t := by
  refine ⟨fun h => ?_, fun h => h.elim .altLeft .altRight⟩
  cases h with
  | altLeft h => exact .inl h
  | altRight h => exact .inr h

theorem matches_eps {s t : List α} : Matches eps s t ↔ t = s := by
  refine ⟨fun h => ?_, fun h => h ▸ .eps⟩
  cases h with
  | eps => rfl

theorem matches_char {p : α → Bool} {s t : List α} :
    Matches (char p) s t ↔ ∃ a, p a = true ∧ s = a :: t := by
  refine ⟨fun h => ?_, fun ⟨a, hp, hs⟩ => hs ▸ .char hp⟩
  cases h with
  | char hp => exact ⟨_, hp, rfl⟩

theorem matches_textEnd {s t : List α} : Matches textEnd s t ↔ s = [] ∧ t = [] := by
  refine ⟨fun h => ?_, fun ⟨hs, ht⟩ => by subst hs ht; exact .textEnd⟩
  cases h with
  | textEnd => exact ⟨rfl, rfl⟩

theorem matches_opt {r : Regex α} {s t : List α} :
    Matches (opt r) s t ↔ Matches r s t ∨ t = s := by
  rw [opt, matches_alt, matches_eps]

theorem matches_lit [DecidableEq α] : ∀ {l s t : List α}, Matches (lit l) s t ↔ s = l ++ t := by
  intro l
  induction l with
  | nil => intro s t; rw [lit, matches_eps, List.nil_append]; exact eq_comm
  | cons a l ih =>
    intro s t
    rw [lit, matches_seq]
    refine ⟨fun ⟨u, ha, hl⟩ => ?_, fun hs =>
      ⟨l ++ t, matches_char.mpr ⟨a, by simp, hs⟩, ih.mpr rfl⟩⟩
    obtain ⟨b, hb, hs⟩ := matches_char.mp ha
    obtain rfl : b = a := by simpa using hb
    rw [hs, ih.mp hl, List.cons_append]

theorem star_char_append {p : α → Bool} : ∀ (w t : List α), (∀ a ∈ w, p a = true) →
    Matches (star (char p)) (w ++ t) t := by
  intro w
  induction w with
  | nil => intro t _; exact .starNil
  | cons a w ih =>
    intro t hw
    exact .starCons (.char (hw a List.mem_cons_self))
      (ih t fun b hb => hw b (List.mem_cons_of_mem a hb))

/-- A star of one character matches any number of such characters. -/
theorem matches_star_char {p : α → Bool} {s t : List α} :
    Matches (star (char p)) s t ↔ ∃ w, s = w ++ t ∧ ∀ a ∈ w, p a = true := by
  refine ⟨fun h => ?_, fun ⟨w, hs, hw⟩ => hs ▸ star_char_append w t hw⟩
  generalize hr : star (char p) = r at h
  induction h with
  | starNil => exact ⟨[], rfl, fun a ha => absurd ha List.not_mem_nil⟩
  | starCons h₁ _ _ ih =>
    cases hr
    obtain ⟨a, ha, hs⟩ := matches_char.mp h₁
    obtain ⟨w, hw, hall⟩ := ih rfl
    refine ⟨a :: w, by rw [hs, hw, List.cons_append], fun b hb => ?_⟩
    rcases List.mem_cons.mp hb with he | hb'
    · exact he ▸ ha
    · exact hall b hb'
  | _ => cases hr

/-! ## Equivalence -/

/-- The same matches. -/
def Equivalent (r q : Regex α) : Prop := ∀ s t, Matches r s t ↔ Matches q s t

theorem Equivalent.refl (r : Regex α) : Equivalent r r := fun _ _ => Iff.rfl

theorem Equivalent.symm {r q : Regex α} (h : Equivalent r q) : Equivalent q r :=
  fun s t => (h s t).symm

theorem Equivalent.trans {r q p : Regex α} (h : Equivalent r q) (h' : Equivalent q p) :
    Equivalent r p :=
  fun s t => (h s t).trans (h' s t)

theorem Equivalent.seq {r r' q q' : Regex α} (hr : Equivalent r r') (hq : Equivalent q q') :
    Equivalent (seq r q) (seq r' q') := by
  intro s t
  rw [matches_seq, matches_seq]
  exact exists_congr fun u => and_congr (hr s u) (hq u t)

theorem Equivalent.alt {r r' q q' : Regex α} (hr : Equivalent r r') (hq : Equivalent q q') :
    Equivalent (alt r q) (alt r' q') := by
  intro s t
  rw [matches_alt, matches_alt]
  exact or_congr (hr s t) (hq s t)

theorem star_of_equiv {r q : Regex α} (h : Equivalent r q) {s t : List α}
    (hm : Matches (star r) s t) : Matches (star q) s t := by
  generalize hp : star r = p at hm
  induction hm with
  | starNil => exact .starNil
  | starCons h₁ _ _ ih =>
    cases hp
    exact .starCons ((h _ _).mp h₁) (ih rfl)
  | _ => cases hp

theorem Equivalent.star {r q : Regex α} (h : Equivalent r q) : Equivalent (star r) (star q) :=
  fun _ _ => ⟨star_of_equiv h, star_of_equiv h.symm⟩

theorem eps_seq (r : Regex α) : Equivalent (.seq eps r) r := by
  intro s t
  rw [matches_seq]
  refine ⟨fun ⟨u, he, h⟩ => ?_, fun h => ⟨s, .eps, h⟩⟩
  rw [matches_eps.mp he] at h
  exact h

theorem seq_assoc (r q p : Regex α) : Equivalent (.seq (.seq r q) p) (.seq r (.seq q p)) := by
  intro s t
  simp only [matches_seq]
  constructor
  · rintro ⟨v, ⟨u, hr, hq⟩, hp⟩
    exact ⟨u, hr, v, hq, hp⟩
  · rintro ⟨u, hr, v, hq, hp⟩
    exact ⟨v, ⟨u, hr, hq⟩, hp⟩

/-- A text before an expression, one item at a time. -/
theorem lit_cons_seq [DecidableEq α] (a : α) (l : List α) (r : Regex α) :
    Equivalent (.seq (lit (a :: l)) r) (.seq (char (· = a)) (.seq (lit l) r)) := seq_assoc _ _ _

theorem lit_singleton_seq [DecidableEq α] (a : α) (r : Regex α) :
    Equivalent (.seq (lit [a]) r) (.seq (char (· = a)) r) :=
  (lit_cons_seq a [] r).trans ((Equivalent.refl _).seq (eps_seq r))

/-! ## The matcher -/

/-- At most `fuel` rounds of `f`, each leaving less than it was given. -/
def rounds (f : List α → List (List α)) : Nat → List α → List (List α)
  | 0, s => [s]
  | n + 1, s => s :: ((f s).filter fun t => t.length < s.length).flatMap (rounds f n)

/-- All that `r` can leave of a text. -/
def remainders : Regex α → List α → List (List α)
  | eps, s => [s]
  | char _, [] => []
  | char p, a :: s => if p a then [s] else []
  | seq r q, s => (remainders r s).flatMap (remainders q)
  | alt r q, s => remainders r s ++ remainders q s
  | star r, s => rounds (remainders r) s.length s
  | textEnd, s => if s.isEmpty then [s] else []

theorem mem_rounds {r : Regex α} {f : List α → List (List α)}
    (hf : ∀ s t, t ∈ f s ↔ Matches r s t) :
    ∀ {n : Nat} {s t : List α}, s.length ≤ n → (t ∈ rounds f n s ↔ Matches (star r) s t) := by
  intro n
  induction n with
  | zero =>
    intro s t hs
    obtain rfl : s = [] := List.length_eq_zero_iff.mp (Nat.le_zero.mp hs)
    rw [rounds, List.mem_singleton]
    exact ⟨fun h => h ▸ .starNil, fun h => List.suffix_nil.mp h.suffix⟩
  | succ n ih =>
    intro s t hs
    have hround : ∀ u, u ∈ (f s).filter (fun t => t.length < s.length) ↔
        Matches r s u ∧ u.length < s.length := by
      intro u
      rw [List.mem_filter, hf, decide_eq_true_iff]
    rw [rounds, List.mem_cons, List.mem_flatMap]
    refine ⟨fun h => ?_, fun h => ?_⟩
    · rcases h with he | ⟨u, hu, ht⟩
      · exact he ▸ .starNil
      · obtain ⟨hm, hl⟩ := (hround u).mp hu
        exact .starCons hm ((ih (by omega)).mp ht)
    · -- rounds that match nothing are skipped, until one that does or the end
      generalize hr : star r = q at h
      induction h with
      | starNil => exact .inl rfl
      | @starCons r' s u t h₁ h₂ _ ih₂ =>
        cases hr
        by_cases hl : u.length < s.length
        · exact .inr ⟨u, (hround u).mpr ⟨h₁, hl⟩, (ih (by omega)).mpr h₂⟩
        · obtain rfl : u = s := h₁.suffix.eq_of_length_le (by omega)
          exact ih₂ hs hround rfl
      | _ => cases hr

/-- **The matcher computes the matching relation.** -/
theorem mem_remainders : ∀ {r : Regex α} {s t : List α}, t ∈ remainders r s ↔ Matches r s t := by
  intro r
  induction r with
  | eps => intro s t; rw [remainders, List.mem_singleton, matches_eps]
  | char p =>
    intro s t
    rw [matches_char]
    cases s with
    | nil => simp [remainders]
    | cons b s =>
      rw [remainders]
      by_cases h : p b = true
      · rw [if_pos h, List.mem_singleton]
        refine ⟨fun ht => ⟨b, h, by rw [ht]⟩, fun ⟨a, _, hs⟩ => (List.cons.inj hs).2.symm⟩
      · rw [if_neg h]
        refine ⟨fun ht => absurd ht List.not_mem_nil, fun ⟨a, ha, hs⟩ => ?_⟩
        exact absurd ((List.cons.inj hs).1 ▸ ha) h
  | seq r q ihr ihq =>
    intro s t
    rw [remainders, List.mem_flatMap, matches_seq]
    exact exists_congr fun u => and_congr ihr ihq
  | alt r q ihr ihq =>
    intro s t
    rw [remainders, List.mem_append, matches_alt]
    exact or_congr ihr ihq
  | star r ih => intro s t; exact mem_rounds (fun _ _ => ih) (Nat.le_refl _)
  | textEnd =>
    intro s t
    rw [matches_textEnd]
    cases s with
    | nil => simp [remainders]
    | cons a s => simp [remainders]

/-! ## Search -/

/-- `r` matches at some place of the text. -/
def Found (r : Regex α) (s : List α) : Prop := ∃ w s' t, s = w ++ s' ∧ Matches r s' t

/-- The unanchored search. -/
def search (r : Regex α) : List α → Bool
  | [] => !(remainders r []).isEmpty
  | a :: s => !(remainders r (a :: s)).isEmpty || search r s

theorem remainders_ne_nil {r : Regex α} {s : List α} :
    (!(remainders r s).isEmpty) = true ↔ ∃ t, Matches r s t := by
  rw [Bool.not_eq_true', List.isEmpty_eq_false_iff_exists_mem]
  exact exists_congr fun t => mem_remainders

/-- **The search finds a match if there is one at any place.** -/
theorem search_iff {r : Regex α} : ∀ {s : List α}, search r s = true ↔ Found r s := by
  intro s
  induction s with
  | nil =>
    rw [search, remainders_ne_nil]
    refine ⟨fun ⟨t, h⟩ => ⟨[], [], t, rfl, h⟩, fun ⟨w, s', t, hs, h⟩ => ?_⟩
    obtain ⟨-, rfl⟩ := List.append_eq_nil_iff.mp hs.symm
    exact ⟨t, h⟩
  | cons a s ih =>
    rw [search, Bool.or_eq_true, remainders_ne_nil, ih]
    refine ⟨fun h => ?_, fun ⟨w, s', t, hs, h⟩ => ?_⟩
    · rcases h with ⟨t, h⟩ | ⟨w, s', t, hs, h⟩
      · exact ⟨[], a :: s, t, rfl, h⟩
      · exact ⟨a :: w, s', t, by rw [hs, List.cons_append], h⟩
    · cases w with
      | nil => exact .inl ⟨t, hs ▸ h⟩
      | cons b w =>
        obtain ⟨-, hs'⟩ := List.cons.inj hs
        exact .inr ⟨w, s', t, hs', h⟩

/-- `r` matches the whole text. -/
def whole (r : Regex α) (s : List α) : Bool := (remainders r s).any (·.isEmpty)

theorem whole_iff {r : Regex α} {s : List α} : whole r s = true ↔ Matches r s [] := by
  rw [whole, List.any_eq_true]
  refine ⟨fun ⟨t, ht, hnil⟩ => ?_, fun h => ⟨[], mem_remainders.mpr h, rfl⟩⟩
  obtain rfl := List.isEmpty_iff.mp hnil
  exact mem_remainders.mp ht

/-- An optional beginning changes nothing for a search. -/
theorem found_opt_seq {r q : Regex α} {s : List α} : Found (seq (opt r) q) s ↔ Found q s := by
  refine ⟨fun ⟨w, s', t, hs, h⟩ => ?_, fun ⟨w, s', t, hs, h⟩ => ?_⟩
  · obtain ⟨u, hr, hq⟩ := matches_seq.mp h
    rcases matches_opt.mp hr with hm | he
    · obtain ⟨v, hv⟩ := hm.suffix
      exact ⟨w ++ v, u, t, by rw [hs, ← hv, List.append_assoc], hq⟩
    · exact ⟨w, s', t, hs, he ▸ hq⟩
  · exact ⟨w, s', t, hs, .seq (matches_opt.mpr (.inr rfl)) h⟩

end Regex
