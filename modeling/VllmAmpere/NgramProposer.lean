import VllmAmpere.Borders
import VllmAmpere.Python

/-! The n-gram proposer: the longest end of the tokens that occurs earlier, found as the longest
border of the reversed tokens, and the tokens behind its earliest occurrence. -/

open List

namespace VllmAmpere.NgramProposer

open Borders

/-- The variables of the loop; `lps` has an entry for each of the first `max_ngram` prefixes. -/
structure Scan where
  lps : List Nat
  longestNgram : Nat
  position : Nat
  prevLps : Nat
  i : Nat

section

variable {T : Type} [DecidableEq T] (tokens : List T) (maxNgram : Nat)

def Scan.next (s : Scan) : Scan :=
  if tokens[s.prevLps]? = tokens[s.i]? then
    let prevLps := s.prevLps + 1
    let longer := s.longestNgram ≤ prevLps
    let lps := if s.i < maxNgram then s.lps.set s.i prevLps else s.lps
    { lps
      longestNgram := if longer then prevLps else s.longestNgram
      position := if longer then s.i else s.position
      prevLps := if prevLps = maxNgram then lps.getD (maxNgram - 1) 0 else prevLps
      i := s.i + 1 }
  else if s.prevLps ≠ 0 then { s with prevLps := s.lps.getD (s.prevLps - 1) 0 }
  else { s with i := s.i + 1 }

def scan : Nat → Scan → Option Scan
  | 0, s => if s.i < tokens.length then none else some s
  | fuel + 1, s =>
    if s.i < tokens.length then scan fuel (s.next tokens maxNgram) else some s

def Scan.start : Scan := ⟨List.replicate maxNgram 0, 0, 0, 0, 1⟩

/-- `_find_longest_matched_ngram_and_propose_tokens`. -/
def findLongestMatchedNgramAndProposeTokens (fuel : Nat) (originTokens : List T)
    (minNgram maxNgram maxModelLen k : Nat) : Option (List T) :=
  let totalToken := originTokens.length
  if totalToken < minNgram then some []
  else
    let k := min k (maxModelLen - totalToken)
    if k = 0 then some []
    else do
      let s ← scan originTokens.reverse maxNgram fuel (Scan.start maxNgram)
      if s.longestNgram < minNgram then some []
      else
        let startPosition := totalToken - 1 - s.position + s.longestNgram
        some (slice originTokens startPosition
          (startPosition + min k (totalToken - startPosition)))

end

/-! ### The loop -/

variable {T : Type} {tokens : List T} {maxNgram : Nat}

/-- Where the loop stands: `prevLps` is the longest border that may still grow, the table has the
borders of the prefixes so far, and the longest border so far ends last at `position`. -/
structure Inv (tokens : List T) (maxNgram : Nat) (s : Scan) : Prop where
  started : 1 ≤ s.i
  within : s.i ≤ tokens.length
  border : IsBorder tokens s.prevLps s.i
  short : s.prevLps < maxNgram
  candidates : ∀ v < maxNgram, IsBorder tokens v s.i → tokens[v]? = tokens[s.i]? → v ≤ s.prevLps
  size : s.lps.length = maxNgram
  table : ∀ j < maxNgram, j < s.i → IsGreatest {v | IsBorder tokens v (j + 1)} (s.lps.getD j 0)
  fresh : ∀ j, s.i ≤ j → s.lps.getD j 0 = 0
  found : IsBorder tokens s.longestNgram (s.position + 1)
  capped : s.longestNgram ≤ maxNgram
  behind : s.position < s.i
  best : ∀ v j, 0 < v → v ≤ maxNgram → j < s.i → IsBorder tokens v (j + 1) →
    v < s.longestNgram ∨ v = s.longestNgram ∧ j ≤ s.position

theorem lps_start (j : Nat) : (List.replicate maxNgram 0).getD j 0 = 0 := by
  rw [getD_eq_getElem?_getD, getElem?_replicate]
  split <;> rfl

theorem inv_start (some' : tokens ≠ []) (pos : 0 < maxNgram) :
    Inv tokens maxNgram (Scan.start maxNgram) where
  started := le_rfl
  within := length_pos_iff.mpr some'
  border := isBorder_zero Nat.one_pos
  short := pos
  candidates := fun _ _ border _ => Nat.le_of_lt_succ border.proper
  size := length_replicate
  table := by
    intro j _ first
    obtain rfl : j = 0 := Nat.lt_one_iff.mp first
    change IsGreatest _ ((List.replicate maxNgram 0).getD 0 0)
    rw [lps_start]
    exact ⟨isBorder_zero Nat.one_pos, fun v border => Nat.le_of_lt_succ border.proper⟩
  fresh := fun j _ => lps_start j
  found := isBorder_zero Nat.one_pos
  capped := Nat.zero_le _
  behind := Nat.one_pos
  best := by
    intro v j some _ first border
    have := border.proper
    have : j < 1 := first
    omega

theorem Inv.grown {s : Scan} (inv : Inv tokens maxNgram s) (inside : s.i < tokens.length) {v : Nat}
    (some' : 0 < v) (short : v ≤ maxNgram) (border : IsBorder tokens v (s.i + 1)) :
    v ≤ s.prevLps + 1 ∧ tokens[v - 1]? = tokens[s.i]? := by
  obtain ⟨u, rfl⟩ := Nat.exists_eq_succ_of_ne_zero some'.ne'
  obtain ⟨shorter, same⟩ := (isBorder_succ inside).mp border
  exact ⟨Nat.succ_le_succ (inv.candidates u short shorter same), same⟩

theorem Inv.falls {s : Scan} (inv : Inv tokens maxNgram s)
    (differs : tokens[s.prevLps]? ≠ tokens[s.i]?) (some' : s.prevLps ≠ 0) :
    Inv tokens maxNgram { s with prevLps := s.lps.getD (s.prevLps - 1) 0 } ∧
      s.lps.getD (s.prevLps - 1) 0 < s.prevLps := by
  have proper := inv.border.proper
  have short := inv.short
  have longest := inv.table (s.prevLps - 1) (by omega) (by omega)
  rw [Nat.sub_add_cancel (Nat.pos_of_ne_zero some')] at longest
  have less := longest.1.proper
  refine ⟨{ inv with
    border := longest.1.trans inv.border
    short := less.trans short
    candidates := fun v under border same => ?_ }, less⟩
  refine longest.2 (border.of_lt inv.border ?_)
  refine (inv.candidates v under border same).lt_of_ne fun e => ?_
  rw [e] at same
  exact differs same

theorem Inv.moves {s : Scan} (inv : Inv tokens maxNgram s) (inside : s.i < tokens.length)
    (differs : tokens[s.prevLps]? ≠ tokens[s.i]?) (none : s.prevLps = 0) :
    Inv tokens maxNgram { s with i := s.i + 1 } := by
  have nothing : ∀ v, v ≤ maxNgram → IsBorder tokens v (s.i + 1) → v = 0 := by
    intro v short border
    by_contra some'
    obtain ⟨le, same⟩ := inv.grown inside (Nat.pos_of_ne_zero some') short border
    have here : v - 1 = s.prevLps := by omega
    rw [here] at same
    exact differs same
  exact { inv with
    started := Nat.le_succ_of_le inv.started
    within := inside
    border := by
      rw [none]
      exact isBorder_zero (Nat.succ_pos _)
    candidates := fun v under border _ => (nothing v under.le border).trans_le (Nat.zero_le _)
    table := by
      intro j under before
      by_cases here : j = s.i
      · rw [here] at under ⊢
        rw [inv.fresh s.i le_rfl]
        refine ⟨isBorder_zero (Nat.succ_pos _), fun v border => ?_⟩
        exact (nothing v ((Nat.le_of_lt_succ border.proper).trans under.le) border).le
      · exact inv.table j under (by
          have : j < s.i + 1 := before
          omega)
    fresh := fun j behind => inv.fresh j (Nat.le_of_succ_le behind)
    behind := inv.behind.trans (Nat.lt_succ_self _)
    best := by
      intro v j some' short before border
      by_cases here : j = s.i
      · rw [here] at border
        exact absurd (nothing v short border) some'.ne'
      · exact inv.best v j some' short (by
          have : j < s.i + 1 := before
          omega) border }

theorem Inv.stores {s : Scan} (inv : Inv tokens maxNgram s) (inside : s.i < tokens.length)
    (same : tokens[s.prevLps]? = tokens[s.i]?) {lps : List Nat}
    (h : lps = if s.i < maxNgram then s.lps.set s.i (s.prevLps + 1) else s.lps) :
    lps.length = maxNgram ∧
    (∀ j < maxNgram, j < s.i + 1 → IsGreatest {v | IsBorder tokens v (j + 1)} (lps.getD j 0)) ∧
    ∀ j, s.i + 1 ≤ j → lps.getD j 0 = 0 := by
  have others : ∀ j, j ≠ s.i → lps.getD j 0 = s.lps.getD j 0 := by
    intro j other
    rw [h]
    split
    · rw [getD_eq_getElem?_getD, getElem?_set_ne (Ne.symm other),
        ← getD_eq_getElem?_getD]
    · rfl
  refine ⟨?_, fun j under before => ?_, fun j behind => ?_⟩
  · rw [h]
    split <;> simp [inv.size]
  · by_cases here : j = s.i
    · rw [here] at under ⊢
      have stored : lps.getD s.i 0 = s.prevLps + 1 := by
        rw [h, if_pos under, getD_eq_getElem?_getD,
          getElem?_set_self (by rw [inv.size]; exact under), Option.getD_some]
      rw [stored]
      refine ⟨(isBorder_succ inside).mpr ⟨inv.border, same⟩, fun v border => ?_⟩
      cases Nat.eq_zero_or_pos v with
      | inl zero => rw [zero]; exact Nat.zero_le _
      | inr some' =>
        exact (inv.grown inside some' ((Nat.le_of_lt_succ border.proper).trans under.le) border).1
    · rw [others j here]
      exact inv.table j under (by omega)
  · rw [others j (by omega)]
    exact inv.fresh j (by omega)

theorem Inv.matches [DecidableEq T] {s : Scan} (inv : Inv tokens maxNgram s) (inside : s.i < tokens.length)
    (same : tokens[s.prevLps]? = tokens[s.i]?) :
    Inv tokens maxNgram (s.next tokens maxNgram) ∧ (s.next tokens maxNgram).i = s.i + 1 ∧
    (s.next tokens maxNgram).prevLps ≤ s.prevLps + 1 := by
  obtain ⟨size, table, fresh⟩ := inv.stores inside same rfl
  rw [Scan.next, if_pos same]
  dsimp only
  generalize (if s.i < maxNgram then s.lps.set s.i (s.prevLps + 1) else s.lps) = lps
    at size table fresh ⊢
  have border : IsBorder tokens (s.prevLps + 1) (s.i + 1) :=
    (isBorder_succ inside).mpr ⟨inv.border, same⟩
  have short := inv.short
  have upper : ∀ v, v ≤ maxNgram → IsBorder tokens v (s.i + 1) → v ≤ s.prevLps + 1 := by
    intro v le h
    cases Nat.eq_zero_or_pos v with
    | inl zero => omega
    | inr some' => exact (inv.grown inside some' le h).1
  -- the border to go on from, which is shorter than the cap
  have next : ∀ p, p = (if s.prevLps + 1 = maxNgram then lps.getD (maxNgram - 1) 0
      else s.prevLps + 1) → IsBorder tokens p (s.i + 1) ∧ p < maxNgram ∧ p ≤ s.prevLps + 1 ∧
        ∀ v < maxNgram, IsBorder tokens v (s.i + 1) → v ≤ p := by
    intro p e
    by_cases full : s.prevLps + 1 = maxNgram
    · rw [if_pos full] at e
      have longest := table (maxNgram - 1) (by omega) (by
        have := inv.border.proper
        omega)
      rw [Nat.sub_add_cancel (by omega), ← e] at longest
      rw [full] at border
      have less := longest.1.proper
      exact ⟨longest.1.trans border, less, by omega, fun v under h =>
        longest.2 (h.of_lt border under)⟩
    · rw [if_neg full] at e
      exact ⟨e ▸ border, by omega, e.le, fun v under h => e ▸ upper v under.le h⟩
  obtain ⟨grows, under, le, longest⟩ := next _ rfl
  refine ⟨{
    started := Nat.le_add_left 1 s.i
    within := inside
    border := grows
    short := under
    candidates := fun v small h _ => longest v small h
    size := size
    table := table
    fresh := fresh
    found := ?_
    capped := ?_
    behind := ?_
    best := fun v j some' small before h => ?_ }, rfl, le⟩
  · by_cases longer : s.longestNgram ≤ s.prevLps + 1
    · simpa only [longer, if_true] using border
    · simpa only [longer, if_false] using inv.found
  · have := inv.capped
    dsimp only
    split <;> omega
  · have := inv.behind
    dsimp only
    split <;> omega
  · dsimp only at before ⊢
    by_cases here : j = s.i
    · rw [here] at h
      have := upper v small h
      split <;> omega
    · have := inv.best v j some' small (by omega) h
      have := inv.behind
      split <;> omega

theorem Inv.next [DecidableEq T] {s : Scan} (inv : Inv tokens maxNgram s) (inside : s.i < tokens.length) :
    Inv tokens maxNgram (s.next tokens maxNgram) ∧
    2 * (tokens.length - (s.next tokens maxNgram).i) + (s.next tokens maxNgram).prevLps <
    2 * (tokens.length - s.i) + s.prevLps := by
  by_cases same : tokens[s.prevLps]? = tokens[s.i]?
  · obtain ⟨inv', i, prevLps⟩ := inv.matches inside same
    exact ⟨inv', by omega⟩
  · by_cases none : s.prevLps = 0
    · rw [Scan.next, if_neg same, if_neg (not_not_intro none)]
      refine ⟨inv.moves inside same none, ?_⟩
      dsimp only
      omega
    · rw [Scan.next, if_neg same, if_pos none]
      obtain ⟨inv', less⟩ := inv.falls same none
      exact ⟨inv', Nat.add_lt_add_left less _⟩

theorem scan_ends [DecidableEq T] {fuel : Nat} {s : Scan} (inv : Inv tokens maxNgram s)
    (enough : 2 * (tokens.length - s.i) + s.prevLps ≤ fuel) :
    ∃ s', scan tokens maxNgram fuel s = some s' ∧ Inv tokens maxNgram s' ∧
    s'.i = tokens.length := by
  induction fuel generalizing s with
  | zero =>
    have within := inv.within
    exact ⟨s, if_neg (by omega), inv, by omega⟩
  | succ fuel ih =>
    by_cases inside : s.i < tokens.length
    · rw [scan, if_pos inside]
      obtain ⟨inv', less⟩ := inv.next inside
      exact ih inv' (by omega)
    · rw [scan, if_neg inside]
      exact ⟨s, rfl, inv, le_antisymm inv.within (Nat.not_lt.mp inside)⟩

/-! ### The proposal -/

/-- The last `n` tokens occur at `p`, which is before they start. -/
structure Earlier (tokens : List T) (n p : Nat) : Prop where
  before : p + n < tokens.length
  occurs : tokens.drop (tokens.length - n) <+: tokens.drop p

/-- The longest end of the tokens that occurs earlier, where it occurs first. -/
structure IsLongestMatch (tokens : List T) (minNgram maxNgram n p : Nat) : Prop where
  least : minNgram ≤ n
  most : n ≤ maxNgram
  earlier : Earlier tokens n p
  longest : ∀ n' p', n' ≤ maxNgram → Earlier tokens n' p' → n' ≤ n
  earliest : ∀ p', Earlier tokens n p' → p ≤ p'

/-- The tokens behind the match, or none where there is no match. -/
def Proposes (tokens : List T) (minNgram maxNgram cap : Nat) (out : List T) : Prop :=
  (∀ n p, minNgram ≤ n → n ≤ maxNgram → ¬Earlier tokens n p) ∧ out = [] ∨
    ∃ n p, IsLongestMatch tokens minNgram maxNgram n p ∧ out = (tokens.drop (p + n)).take cap

theorem Proposes.unique {minNgram maxNgram cap : Nat} {out out' : List T}
    (h : Proposes tokens minNgram maxNgram cap out)
    (h' : Proposes tokens minNgram maxNgram cap out') : out = out' := by
  rcases h with ⟨nothing, rfl⟩ | ⟨n, p, m, rfl⟩
  · rcases h' with ⟨-, rfl⟩ | ⟨n, p, m, -⟩
    · rfl
    · exact absurd m.earlier (nothing n p m.least m.most)
  · rcases h' with ⟨nothing, -⟩ | ⟨n', p', m', rfl⟩
    · exact absurd m.earlier (nothing n p m.least m.most)
    · obtain rfl := le_antisymm (m'.longest n p m.most m.earlier) (m.longest n' p' m'.most m'.earlier)
      rw [le_antisymm (m.earliest p' m'.earlier) (m'.earliest p m.earlier)]

theorem earlier_iff {n p : Nat} (inside : p < tokens.length) :
    Earlier tokens n p ↔ IsBorder tokens.reverse n (tokens.length - p) := by
  rw [isBorder_reverse (Nat.sub_le _ _), Nat.sub_sub_self inside.le]
  exact ⟨fun h => ⟨by have := h.before; omega, h.occurs⟩, fun h => ⟨by omega, h.2⟩⟩

theorem Inv.matched {s : Scan} (inv : Inv tokens.reverse maxNgram s) (done : s.i = tokens.length) :
    Earlier tokens s.longestNgram (tokens.length - 1 - s.position) ∧
    ∀ n p, 0 < n → n ≤ maxNgram → Earlier tokens n p →
    n < s.longestNgram ∨ n = s.longestNgram ∧ tokens.length - 1 - s.position ≤ p := by
  have behind := inv.behind
  constructor
  · rw [earlier_iff (by omega)]
    have here : tokens.length - (tokens.length - 1 - s.position) = s.position + 1 := by omega
    rw [here]
    exact inv.found
  · intro n p some' small earlier
    have before := earlier.before
    have border := (earlier_iff (by omega)).mp earlier
    have here : tokens.length - p = tokens.length - p - 1 + 1 := by omega
    rw [here] at border
    have := inv.best n (tokens.length - p - 1) some' small (by omega) border
    omega

theorem proposes [DecidableEq T] {minNgram maxNgram : Nat} (tokens : List T) (maxModelLen k : Nat)
    (pos : 1 ≤ minNgram) (le : minNgram ≤ maxNgram) {fuel : Nat}
    (enough : 2 * tokens.length ≤ fuel) :
    ∃ out, findLongestMatchedNgramAndProposeTokens fuel tokens minNgram maxNgram maxModelLen k =
    some out ∧ Proposes tokens minNgram maxNgram (min k (maxModelLen - tokens.length)) out := by
  unfold findLongestMatchedNgramAndProposeTokens
  dsimp only
  by_cases few : tokens.length < minNgram
  · rw [if_pos few]
    refine ⟨[], rfl, .inl ⟨fun n p least _ earlier => ?_, rfl⟩⟩
    have := earlier.before
    omega
  · rw [if_neg few]
    have some' : tokens.reverse ≠ [] := by
      rw [Ne, reverse_eq_nil_iff]
      rintro rfl
      exact few pos
    obtain ⟨s, ended, inv, done⟩ := @scan_ends T _ _ _ fuel _ (inv_start some' (pos.trans le)) (by
      rw [length_reverse]
      change 2 * (tokens.length - 1) + 0 ≤ fuel
      omega)
    rw [length_reverse] at done
    obtain ⟨earlier, best⟩ := inv.matched done
    have longest : minNgram ≤ s.longestNgram → IsLongestMatch tokens minNgram maxNgram
        s.longestNgram (tokens.length - 1 - s.position) := fun least => {
      least := least
      most := inv.capped
      earlier := earlier
      longest := fun n p small h => by
        cases Nat.eq_zero_or_pos n with
        | inl zero => omega
        | inr some' => have := best n p some' small h; omega
      earliest := fun p h => by
        have := best _ p (pos.trans least) inv.capped h
        omega }
    have nothing : s.longestNgram < minNgram → ∀ n p, minNgram ≤ n → n ≤ maxNgram →
        ¬Earlier tokens n p := by
      intro less n p least small h
      have := best n p (pos.trans least) small h
      omega
    by_cases cut : min k (maxModelLen - tokens.length) = 0
    · rw [if_pos cut, cut]
      refine ⟨[], rfl, ?_⟩
      by_cases less : s.longestNgram < minNgram
      · exact .inl ⟨nothing less, rfl⟩
      · exact .inr ⟨_, _, longest (Nat.not_lt.mp less), take_zero.symm⟩
    · rw [if_neg cut, ended]
      change ∃ out, (if s.longestNgram < minNgram then some [] else _) = some out ∧ _
      by_cases less : s.longestNgram < minNgram
      · rw [if_pos less]
        exact ⟨[], rfl, .inl ⟨nothing less, rfl⟩⟩
      · rw [if_neg less]
        refine ⟨_, rfl, .inr ⟨_, _, longest (Nat.not_lt.mp less), ?_⟩⟩
        rw [slice, drop_take, Nat.add_sub_cancel_left, ← length_drop,
          ← take_take, take_length]

end VllmAmpere.NgramProposer
