import Mathlib.Algebra.Order.Ring.Nat
import Mathlib.Data.Nat.Dist
import Mathlib.Data.Nat.Factorization.Basic
import Mathlib.Tactic.Ring

/-!
# Numbers with few bits

`round p n` is the number of at most `p` significant bits that is nearest to `n`, the
even one of two.  Several numbers round to the same; `shortest p m` is the one of
them that ends in the most zeros in base ten, and among those the nearest to `m`.
In a range as narrow as theirs most zeros are fewest digits.

* `round_mono`: rounding keeps the order, so that what rounds to the same is an
  interval (`round_between`).
* `dvd_round`, `dist_round`: the result is a multiple of a power of two and at most
  half of it away.
* `shortest_round_iff`: a number is the shortest of its interval exactly if none of
  them ends in more zeros and none that ends in as many is nearer.  There are no ties.
-/

namespace Rounding

/-! ## Multiples -/

/-- The nearest multiple of `u`, the even one of two. -/
def toMultiple (u n : Nat) : Nat :=
  if 2 * (n % u) < u ∨ 2 * (n % u) = u ∧ n / u % 2 = 0 then n / u * u else (n / u + 1) * u

section Multiples

variable {u : Nat}

theorem dvd_toMultiple (u n : Nat) : u ∣ toMultiple u n := by
  unfold toMultiple
  split <;> exact Nat.dvd_mul_left _ _

theorem toMultiple_of_dvd (hu : 0 < u) {n : Nat} (h : u ∣ n) : toMultiple u n = n := by
  have hmod : 2 * (n % u) < u := by
    rw [Nat.mod_eq_zero_of_dvd h]
    exact hu
  rw [toMultiple, if_pos (.inl hmod), Nat.div_mul_cancel h]

/-- It is at most half of `u` away. -/
theorem toMultiple_near (hu : 0 < u) (n : Nat) :
    2 * n ≤ 2 * toMultiple u n + u ∧ 2 * toMultiple u n ≤ 2 * n + u := by
  have hdiv : n / u * u + n % u = n := Nat.div_add_mod' n u
  have hmod : n % u < u := Nat.mod_lt n hu
  unfold toMultiple
  split
  · omega
  · rw [Nat.add_mul]
    omega

theorem toMultiple_mono {a b : Nat} (h : a ≤ b) : toMultiple u a ≤ toMultiple u b := by
  have hle : a / u ≤ b / u := Nat.div_le_div_right h
  have hlow : ∀ n, n / u * u ≤ toMultiple u n := fun n => by
    unfold toMultiple
    split
    · exact Nat.le_refl _
    · exact Nat.mul_le_mul_right u (Nat.le_succ _)
  have hhigh : ∀ n, toMultiple u n ≤ (n / u + 1) * u := fun n => by
    unfold toMultiple
    split
    · exact Nat.mul_le_mul_right u (Nat.le_succ _)
    · exact Nat.le_refl _
  by_cases hlt : a / u < b / u
  · calc toMultiple u a ≤ (a / u + 1) * u := hhigh a
      _ ≤ b / u * u := Nat.mul_le_mul_right u hlt
      _ ≤ toMultiple u b := hlow b
  · -- with one quotient, the remainders decide
    have hq : a / u = b / u := by omega
    have hmod : a % u ≤ b % u := by
      have ha : a / u * u + a % u = a := Nat.div_add_mod' a u
      have hb : b / u * u + b % u = b := Nat.div_add_mod' b u
      rw [hq] at ha
      omega
    have hstep : b / u * u ≤ (b / u + 1) * u := Nat.mul_le_mul_right u (Nat.le_succ _)
    unfold toMultiple
    rw [hq]
    split
    · split
      · exact Nat.le_refl _
      · exact hstep
    · rename_i hup
      rw [if_neg (by omega)]

end Multiples

/-! ## Significant bits -/

/-- How many bits of `n` are too many. -/
def excess (p n : Nat) : Nat := n.log2 + 1 - p

def round (p n : Nat) : Nat := toMultiple (2 ^ excess p n) n

section Round

variable {p : Nat}

theorem dvd_round (p n : Nat) : 2 ^ excess p n ∣ round p n := dvd_toMultiple _ n

theorem dist_round (p n : Nat) : 2 * Nat.dist n (round p n) ≤ 2 ^ excess p n := by
  have hnear := toMultiple_near (Nat.two_pow_pos (excess p n)) n
  unfold round Nat.dist
  omega

theorem round_of_dvd {n : Nat} (h : 2 ^ excess p n ∣ n) : round p n = n :=
  toMultiple_of_dvd (Nat.two_pow_pos _) h

/-- A number of `p` bits stays. -/
theorem round_of_lt {n : Nat} (h : n < 2 ^ p) : round p n = n := by
  refine round_of_dvd ?_
  by_cases hn : n = 0
  · rw [hn]
    exact Nat.dvd_zero _
  · have hlog : n.log2 < p := (Nat.log2_lt hn).mpr h
    have hexcess : excess p n = 0 := by
      unfold excess
      omega
    rw [hexcess, Nat.pow_zero]
    exact Nat.one_dvd n

theorem excess_le (hp : 0 < p) (n : Nat) : excess p n ≤ n.log2 := by
  unfold excess
  omega

theorem two_pow_log2_le_round (hp : 0 < p) {n : Nat} (hn : n ≠ 0) : 2 ^ n.log2 ≤ round p n := by
  have hself : toMultiple (2 ^ excess p n) (2 ^ n.log2) = 2 ^ n.log2 :=
    toMultiple_of_dvd (Nat.two_pow_pos _) (Nat.pow_dvd_pow 2 (excess_le hp n))
  calc 2 ^ n.log2 = toMultiple (2 ^ excess p n) (2 ^ n.log2) := hself.symm
    _ ≤ round p n := toMultiple_mono (Nat.log2_self_le hn)

theorem round_le_two_pow_log2 (hp : 0 < p) (n : Nat) : round p n ≤ 2 ^ (n.log2 + 1) := by
  have hle : excess p n ≤ n.log2 + 1 := Nat.le_succ_of_le (excess_le hp n)
  have hself : toMultiple (2 ^ excess p n) (2 ^ (n.log2 + 1)) = 2 ^ (n.log2 + 1) :=
    toMultiple_of_dvd (Nat.two_pow_pos _) (Nat.pow_dvd_pow 2 hle)
  calc round p n ≤ toMultiple (2 ^ excess p n) (2 ^ (n.log2 + 1)) :=
        toMultiple_mono (Nat.le_of_lt Nat.lt_log2_self)
    _ = 2 ^ (n.log2 + 1) := hself

/-- No power of two is rounded over. -/
theorem two_pow_le_round (hp : 0 < p) {t n : Nat} (h : 2 ^ t ≤ n) : 2 ^ t ≤ round p n := by
  have hn : n ≠ 0 := by
    have := Nat.two_pow_pos t
    omega
  exact (Nat.pow_le_pow_right (by omega) ((Nat.le_log2 hn).mpr h)).trans
    (two_pow_log2_le_round hp hn)

@[simp] theorem round_two_pow (hp : 0 < p) (t : Nat) : round p (2 ^ t) = 2 ^ t := by
  refine round_of_dvd (Nat.pow_dvd_pow 2 ?_)
  have hle := excess_le hp (2 ^ t)
  rwa [Nat.log2_two_pow] at hle

theorem round_le_two_pow (hp : 0 < p) {t n : Nat} (h : n ≤ 2 ^ t) : round p n ≤ 2 ^ t := by
  by_cases hn : n = 2 ^ t
  · rw [hn, round_two_pow hp]
  · by_cases hzero : n = 0
    · rw [hzero, round_of_lt (Nat.two_pow_pos p)]
      exact Nat.zero_le _
    · have hlog : n.log2 < t := (Nat.log2_lt hzero).mpr (by omega)
      exact (round_le_two_pow_log2 hp n).trans (Nat.pow_le_pow_right (by omega) hlog)

/-- **Rounding keeps the order.** -/
theorem round_mono (hp : 0 < p) {a b : Nat} (h : a ≤ b) : round p a ≤ round p b := by
  by_cases ha : a = 0
  · rw [ha, round_of_lt (Nat.two_pow_pos p)]
    exact Nat.zero_le _
  have hlog : a.log2 ≤ b.log2 := (Nat.le_log2 (by omega)).mpr ((Nat.log2_self_le ha).trans h)
  by_cases heq : a.log2 = b.log2
  · have hexcess : excess p a = excess p b := by rw [excess, excess, heq]
    rw [round, round, hexcess]
    exact toMultiple_mono h
  · -- a power of two stands between numbers of different lengths
    have hpow : 2 ^ (a.log2 + 1) ≤ b :=
      (Nat.pow_le_pow_right (by omega) (by omega : a.log2 + 1 ≤ b.log2)).trans
        (Nat.log2_self_le (by omega))
    exact (round_le_two_pow_log2 hp a).trans (two_pow_le_round hp hpow)

/-- What rounds to one number is an interval. -/
theorem round_between (hp : 0 < p) {a b c m : Nat} (ha : round p a = m) (hc : round p c = m)
    (hab : a ≤ b) (hbc : b ≤ c) : round p b = m := by
  have hlow := round_mono hp hab
  have hhigh := round_mono hp hbc
  omega

@[simp] theorem round_round (hp : 0 < p) (n : Nat) : round p (round p n) = round p n := by
  by_cases hn : n = 0
  · rw [hn, round_of_lt (Nat.two_pow_pos p), round_of_lt (Nat.two_pow_pos p)]
  have hlow := two_pow_log2_le_round hp hn
  by_cases htop : round p n = 2 ^ (n.log2 + 1)
  · rw [htop, round_two_pow hp]
  · have hne : round p n ≠ 0 := by
      have := Nat.two_pow_pos n.log2
      omega
    have hlt : round p n < 2 ^ (n.log2 + 1) := lt_of_le_of_ne (round_le_two_pow_log2 hp n) htop
    have hlog : (round p n).log2 = n.log2 := by
      have hle := (Nat.le_log2 hne).mpr hlow
      have hlt' := (Nat.log2_lt hne).mpr hlt
      omega
    refine round_of_dvd ?_
    have hexcess : excess p (round p n) = excess p n := by rw [excess, excess, hlog]
    rw [hexcess]
    exact dvd_round p n

theorem round_eq_zero (hp : 0 < p) {n : Nat} : round p n = 0 ↔ n = 0 := by
  constructor
  · intro h
    by_contra hn
    have hlow := two_pow_log2_le_round hp hn
    have := Nat.two_pow_pos n.log2
    omega
  · rintro rfl
    exact round_of_lt (Nat.two_pow_pos p)

end Round

/-! ## The shortest decimal -/

/-- The multiple of `g` nearest to `m` among those that round to `m`. -/
def candidate (p g m : Nat) : Option Nat :=
  if round p (m / g * g) = m then
    if round p (m / g * g + g) = m ∧ m / g * g + g - m < m - m / g * g then some (m / g * g + g)
    else some (m / g * g)
  else if round p (m / g * g + g) = m then some (m / g * g + g)
  else none

/-- The first candidate, from `10 ^ j` zeros down. -/
def shortestBelow (p m : Nat) : Nat → Nat
  | 0 => m
  | j + 1 =>
    match candidate p (10 ^ (j + 1)) m with
    | some c => c
    | none => shortestBelow p m j

def shortest (p m : Nat) : Nat := shortestBelow p m (m.log2 + 1)

/-- A multiple of `g` that rounds to `m`, none nearer. -/
structure Nearest (p g m c : Nat) : Prop where
  dvd : g ∣ c
  rounds : round p c = m
  nearest : ∀ k, g ∣ k → round p k = m → Nat.dist c m ≤ Nat.dist k m

section Shortest

variable {p g m : Nat}

/-- A multiple of `g` is not strictly between two neighbouring ones. -/
theorem multiple_cases {k : Nat} (h : g ∣ k) : k ≤ m / g * g ∨ m / g * g + g ≤ k := by
  obtain ⟨a, rfl⟩ := h
  by_cases hle : a ≤ m / g
  · exact .inl (by rw [Nat.mul_comm]; exact Nat.mul_le_mul_right g hle)
  · have hlt : (m / g + 1) * g ≤ a * g := Nat.mul_le_mul_right g (by omega)
    rw [Nat.add_mul, Nat.one_mul, Nat.mul_comm a g] at hlt
    exact .inr hlt

theorem candidate_none (hp : 0 < p) (hg : 0 < g) (hm : round p m = m) (h : candidate p g m = none)
    {k : Nat} (hk : g ∣ k) : round p k ≠ m := by
  intro hround
  have hlow : m / g * g ≤ m := Nat.div_mul_le_self m g
  have hhigh : m < m / g * g + g := Nat.lt_div_mul_add hg
  unfold candidate at h
  split at h
  · split at h <;> exact nomatch h
  · rename_i hlo
    split at h
    · exact nomatch h
    · rename_i hhi
      rcases multiple_cases hk with hle | hle
      · exact hlo (round_between hp hround hm hle hlow)
      · exact hhi (round_between hp hm hround hhigh.le hle)

theorem candidate_some (hp : 0 < p) (hg : 0 < g) (hm : round p m = m) {c : Nat}
    (h : candidate p g m = some c) : Nearest p g m c := by
  have hlow : m / g * g ≤ m := Nat.div_mul_le_self m g
  have hhigh : m < m / g * g + g := Nat.lt_div_mul_add hg
  have hdvd : g ∣ m / g * g := Nat.dvd_mul_left g _
  have hdvd' : g ∣ m / g * g + g := (Nat.dvd_add_right hdvd).mpr (Nat.dvd_refl g)
  unfold candidate at h
  split at h <;> rename_i hlo
  · split at h <;> rename_i hnear
    · obtain rfl := Option.some.inj h
      refine ⟨hdvd', hnear.1, fun k hk _ => ?_⟩
      rcases multiple_cases (m := m) hk with hle | hle
      · unfold Nat.dist
        omega
      · unfold Nat.dist
        omega
    · obtain rfl := Option.some.inj h
      refine ⟨hdvd, hlo, fun k hk hround => ?_⟩
      rcases multiple_cases (m := m) hk with hle | hle
      · unfold Nat.dist
        omega
      · have hhi := round_between hp hm hround hhigh.le hle
        have hfar : m - m / g * g ≤ m / g * g + g - m := by
          by_contra hlt
          exact hnear ⟨hhi, by omega⟩
        unfold Nat.dist
        omega
  · split at h <;> rename_i hhi
    · obtain rfl := Option.some.inj h
      refine ⟨hdvd', hhi, fun k hk hround => ?_⟩
      rcases multiple_cases (m := m) hk with hle | hle
      · exact absurd (round_between hp hround hm hle hlow) hlo
      · unfold Nat.dist
        omega
    · exact nomatch h

/-- The result is nearest among the multiples of a power of ten, and there is no multiple of a
greater one. -/
theorem shortestBelow_spec (hp : 0 < p) (hm : round p m = m) (J : Nat) :
    ∃ j, Nearest p (10 ^ j) m (shortestBelow p m J) ∧
      ∀ i k, j < i → i ≤ J → 10 ^ i ∣ k → round p k ≠ m := by
  induction J with
  | zero =>
    refine ⟨0, ⟨Nat.one_dvd _, hm, fun k _ _ => ?_⟩, fun i k h h' => by omega⟩
    rw [shortestBelow, Nat.dist_self]
    exact Nat.zero_le _
  | succ J ih =>
    have hg : 0 < 10 ^ (J + 1) := Nat.pow_pos (by omega)
    rcases hc : candidate p (10 ^ (J + 1)) m with _ | c
    · obtain ⟨j, hnear, hnone⟩ := ih
      refine ⟨j, ?_, fun i k hi hJ hk => ?_⟩
      · simpa only [shortestBelow, hc] using hnear
      · by_cases htop : i = J + 1
        · exact candidate_none hp hg hm hc (htop ▸ hk)
        · exact hnone i k hi (by omega) hk
    · refine ⟨J + 1, ?_, fun i k hi hJ => by omega⟩
      simpa only [shortestBelow, hc] using candidate_some hp hg hm hc

/-- Its zeros are the most of all that round to the same. -/
theorem dvd_shortest (hp : 0 < p) (hm : round p m = m) (hpos : 0 < m) {k i : Nat}
    (hround : round p k = m) (hk : 10 ^ i ∣ k) : 10 ^ i ∣ shortest p m := by
  obtain ⟨j, hnear, hnone⟩ := shortestBelow_spec hp hm (m.log2 + 1)
  by_cases hi : i ≤ j
  · exact (Nat.pow_dvd_pow 10 hi).trans hnear.dvd
  · by_cases hJ : i ≤ m.log2 + 1
    · exact absurd hround (hnone i k (by omega) hJ hk)
    · -- a multiple of so great a power rounds to more than `m`
      have hkpos : 0 < k := by
        by_contra hzero
        have hk0 : k = 0 := by omega
        rw [(round_eq_zero hp).mpr hk0] at hround
        omega
      have hten : 2 ^ (m.log2 + 1) ≤ 10 ^ i :=
        (Nat.pow_le_pow_left (by omega) _).trans (Nat.pow_le_pow_right (by omega) (by omega))
      have hgreat := two_pow_le_round hp (hten.trans (Nat.le_of_dvd hkpos hk))
      have hlt : m < 2 ^ (m.log2 + 1) := Nat.lt_log2_self
      omega

theorem round_shortest (hp : 0 < p) (hm : round p m = m) : round p (shortest p m) = m := by
  obtain ⟨j, hnear, -⟩ := shortestBelow_spec hp hm (m.log2 + 1)
  exact hnear.rounds

theorem shortest_nearest (hp : 0 < p) (hm : round p m = m) {k : Nat} (hround : round p k = m)
    (hk : ∀ j, 10 ^ j ∣ shortest p m → 10 ^ j ∣ k) : Nat.dist (shortest p m) m ≤ Nat.dist k m := by
  obtain ⟨j, hnear, -⟩ := shortestBelow_spec hp hm (m.log2 + 1)
  exact hnear.nearest k (hk j hnear.dvd) hround

/-- None that rounds like `n` ends in more zeros, and none that ends in as many is nearer to what
they round to. -/
structure IsShortest (p n : Nat) : Prop where
  zeros : ∀ k j, round p k = round p n → 10 ^ j ∣ k → 10 ^ j ∣ n
  nearest : ∀ k, round p k = round p n → (∀ j, 10 ^ j ∣ n → 10 ^ j ∣ k) →
    Nat.dist n (round p n) ≤ Nat.dist k (round p n)

/-- Twice a rounded number is no odd multiple of a power of ten as small as what was rounded off. -/
theorem excess_lt_of_odd {n j c : Nat} (h : 2 * round p n = 10 ^ j * c) (hc : c % 2 = 1) :
    excess p n < j := by
  have hodd : Nat.Coprime (2 ^ (excess p n + 1)) (5 ^ j * c) := by
    have hfive : Nat.Coprime 2 (5 ^ j) := Nat.Coprime.pow_right j (by decide)
    have htwo : Nat.Coprime 2 c := Nat.coprime_two_left.mpr (Nat.odd_iff.mpr hc)
    exact Nat.Coprime.pow_left _ (hfive.mul_right htwo)
  have hten : 2 ^ j * (5 ^ j * c) = 2 * round p n := by rw [h, ← Nat.mul_assoc, ← Nat.mul_pow]
  have hdvd : 2 ^ (excess p n + 1) ∣ 2 ^ j * (5 ^ j * c) := by
    rw [hten, Nat.pow_succ, Nat.mul_comm]
    exact Nat.mul_dvd_mul_left 2 (dvd_round p n)
  exact (Nat.pow_dvd_pow_iff_le_right (by omega)).mp (hodd.dvd_of_dvd_mul_right hdvd)

/-- Two that end in as many zeros are not equally near. -/
theorem IsShortest.unique (hp : 0 < p) {n r : Nat} (h : IsShortest p n) (hn : 0 < n)
    (hzeros : ∀ j, 10 ^ j ∣ n → 10 ^ j ∣ r)
    (hdist : Nat.dist r (round p n) = Nat.dist n (round p n)) : r = n := by
  by_contra hne
  have hsum : n + r = 2 * round p n := by
    unfold Nat.dist at hdist
    omega
  obtain ⟨j, a, ha, hna⟩ := Nat.exists_eq_pow_mul_and_not_dvd
    (Nat.pos_iff_ne_zero.mp hn) 10 (by omega)
  obtain ⟨b, hb⟩ := hzeros j (hna ▸ Nat.dvd_mul_right _ _)
  have hm : 2 * round p n = 10 ^ j * (a + b) := by rw [← hsum, hna, hb, Nat.mul_add]
  by_cases heven : (a + b) % 2 = 0
  · -- the middle ends in as many zeros and is nearer
    obtain ⟨c, hc⟩ : 2 ∣ a + b := Nat.dvd_of_mod_eq_zero heven
    have hmiddle : round p n = 10 ^ j * c := by
      rw [hc] at hm
      have : 10 ^ j * (2 * c) = 2 * (10 ^ j * c) := by ring
      omega
    have hself := h.nearest (round p n) (round_round hp n) fun i hi => ?_
    · rw [Nat.dist_self] at hself
      unfold Nat.dist at hself hdist
      omega
    · by_cases hij : i ≤ j
      · exact (Nat.pow_dvd_pow 10 hij).trans (hmiddle ▸ Nat.dvd_mul_right _ _)
      · refine absurd ?_ ha
        have hsucc : 10 ^ j * 10 ∣ 10 ^ j * a := by
          rw [← Nat.pow_succ, ← hna]
          exact (Nat.pow_dvd_pow 10 (by omega)).trans hi
        exact Nat.dvd_of_mul_dvd_mul_left (Nat.pow_pos (by omega)) hsucc
  · -- they are a multiple of ten to the `j` apart, which is more than was rounded off
    have hfar : 10 ^ j ≤ Nat.dist n r := by
      have hpos : 0 < Nat.dist a b := Nat.dist_pos_of_ne fun hab => hne (by rw [hna, hb, hab])
      rw [hna, hb, Nat.dist_mul_left]
      exact Nat.le_mul_of_pos_right _ hpos
    have htwice : Nat.dist n r = 2 * Nat.dist n (round p n) := by
      unfold Nat.dist
      omega
    have htwo : 2 ^ (excess p n + 1) ≤ 10 ^ j :=
      (Nat.pow_le_pow_right (by omega) (excess_lt_of_odd hm (by omega))).trans
        (Nat.pow_le_pow_left (by omega) j)
    have hnear := dist_round p n
    have := Nat.two_pow_pos (excess p n)
    rw [Nat.pow_succ] at htwo
    omega

/-- **Which numbers are what their rounding is printed as.** -/
theorem shortest_round_iff (hp : 0 < p) (n : Nat) :
    shortest p (round p n) = n ↔ IsShortest p n := by
  have hm := round_round hp n
  by_cases hn : n = 0
  · subst hn
    have hzero : round p 0 = 0 := (round_eq_zero hp).mpr rfl
    have hshort := round_shortest hp hm
    rw [hzero, round_eq_zero hp] at hshort
    rw [hzero]
    refine iff_of_true hshort ⟨fun _ j _ _ => Nat.dvd_zero _, fun k _ _ => ?_⟩
    rw [hzero, Nat.dist_self]
    exact Nat.zero_le _
  have hpos : 0 < round p n := by
    have := mt (round_eq_zero hp).mp hn
    omega
  constructor
  · intro h
    refine ⟨fun k j hk hj => ?_, fun k hk hzeros => ?_⟩
    · rw [← h]
      exact dvd_shortest hp hm hpos hk hj
    · have hnear := shortest_nearest hp hm hk
      rw [h] at hnear
      exact hnear hzeros
  · intro h
    have hround := round_shortest hp hm
    have hzeros : ∀ j, 10 ^ j ∣ n → 10 ^ j ∣ shortest p (round p n) := fun j hj =>
      dvd_shortest hp hm hpos rfl hj
    refine h.unique hp (by omega) hzeros (Nat.le_antisymm ?_ ?_)
    · exact shortest_nearest hp hm rfl fun j hj => h.zeros _ j hround hj
    · exact h.nearest _ hround hzeros

/-- A number of `p` bits is the only one that rounds to itself. -/
theorem isShortest_of_lt (hp : 0 < p) {n : Nat} (h : n < 2 ^ p) : IsShortest p n := by
  have hn : round p n = n := round_of_lt h
  have honly : ∀ k, round p k = round p n → k = n := fun k hk => by
    by_cases hlt : k < 2 ^ p
    · rwa [round_of_lt hlt, hn] at hk
    · have hgreat := two_pow_le_round hp (Nat.le_of_not_lt hlt)
      omega
  refine ⟨fun k j hk hj => honly k hk ▸ hj, fun k hk _ => ?_⟩
  rw [honly k hk]

example : shortest 53 (round 53 9007199254740993) = 9007199254740992 := by decide +kernel

end Shortest

end Rounding
