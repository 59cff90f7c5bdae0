import Mathlib.Logic.Equiv.List
import VllmAmpere.BlockHashing

/-! Which multimodal features a block's extra keys mention. A feature is recorded
in the block it starts in when no earlier feature runs past that block; placeholders
with this property make the resumed and the restarted scan agree. -/

open List

namespace VllmAmpere

def SeparatedByBlocks (blockSize : Nat) (layout : List PlaceholderRange) : Prop :=
  layout.Pairwise fun p q => p.offset + p.length ≤ (q.offset / blockSize + 1) * blockSize

instance (blockSize : Nat) (layout : List PlaceholderRange) :
    Decidable (SeparatedByBlocks blockSize layout) := by
  unfold SeparatedByBlocks
  infer_instance

/-- The features before `mmIdx` end at or before `start`. -/
def Passed (r : Request) (start mmIdx : Nat) : Prop :=
  ∀ f ∈ r.mmFeatures.take mmIdx, f.stop ≤ start

theorem passed_zero (r : Request) (start : Nat) : Passed r start 0 := by
  simp [Passed]

variable {r : Request}

theorem Passed.mono {start start' mmIdx : Nat} (hp : Passed r start mmIdx)
    (hle : start ≤ start') : Passed r start' mmIdx :=
  fun f hf => Nat.le_trans (hp f hf) hle

theorem loop_skip {start stop : Nat} (hss : start < stop) (xs ys : List MultiModalFeatureSpec)
    (mmIdx : Nat) (hxs : ∀ f ∈ xs, f.stop ≤ start) :
    genMmExtraHashKeysLoop start stop (xs ++ ys) mmIdx =
    genMmExtraHashKeysLoop start stop ys (mmIdx + xs.length) := by
  induction xs generalizing mmIdx with
  | nil => rfl
  | cons f xs ih =>
    have hf : f.stop ≤ start := hxs f (by simp)
    have reached : stop > f.mmPosition.offset := by
      have := f.lt_stop
      omega
    rw [cons_append, genMmExtraHashKeysLoop, if_pos reached, if_pos hf,
      ih (mmIdx + 1) (fun g hg => hxs g (by simp [hg])), length_cons]
    congr 1
    omega

theorem loop_index {start stop : Nat} (hss : start ≤ stop) (fs : List MultiModalFeatureSpec)
    (mmIdx : Nat) : ∃ n, (genMmExtraHashKeysLoop start stop fs mmIdx).2 = mmIdx + n ∧
    ∀ f ∈ fs.take n, f.stop ≤ stop := by
  induction fs generalizing mmIdx with
  | nil => exact ⟨0, rfl, by simp⟩
  | cons f fs ih =>
    have next : f.stop ≤ stop → ∃ n,
        (genMmExtraHashKeysLoop start stop fs (mmIdx + 1)).2 = mmIdx + n ∧
          ∀ g ∈ (f :: fs).take n, g.stop ≤ stop := by
      intro hf
      have ⟨n, hn, ht⟩ := ih (mmIdx + 1)
      refine ⟨n + 1, by omega, ?_⟩
      simpa [hf] using ht
    have stay : ∃ n, mmIdx = mmIdx + n ∧ ∀ g ∈ (f :: fs).take n, g.stop ≤ stop :=
      ⟨0, rfl, by simp⟩
    simp only [genMmExtraHashKeysLoop]
    split
    · split
      · exact next (by omega)
      · split
        · exact next (by omega)
        · exact stay
    · exact stay

theorem genMm_eq_of_passed {start stop mmIdx : Nat} (hss : start < stop)
    (hp : Passed r start mmIdx) :
    (genMmExtraHashKeys r start stop mmIdx).1 = (genMmExtraHashKeys r start stop 0).1 := by
  simp only [genMmExtraHashKeys]
  cases r.mmFeatures.getLast? with
  | none => rfl
  | some last =>
    simp only
    split
    · rfl
    · have h0 := loop_skip hss (r.mmFeatures.take mmIdx) (r.mmFeatures.drop mmIdx) 0 hp
      rw [take_append_drop] at h0
      rw [drop_zero, h0]
      exact loop_fst_eq _ _ _
where
  loop_fst_eq {start stop : Nat} (fs : List MultiModalFeatureSpec) (i j : Nat) :
      (genMmExtraHashKeysLoop start stop fs i).1 = (genMmExtraHashKeysLoop start stop fs j).1 := by
    induction fs generalizing i j with
    | nil => rfl
    | cons f fs ih =>
      simp only [genMmExtraHashKeysLoop]
      split
      · split
        · exact ih _ _
        · split
          · simp only [ih (i + 1) (j + 1)]
          · rfl
      · rfl

theorem passed_next {start stop mmIdx : Nat} (hss : start ≤ stop) (hp : Passed r start mmIdx) :
    Passed r stop (genMmExtraHashKeys r start stop mmIdx).2 := by
  simp only [genMmExtraHashKeys]
  cases r.mmFeatures.getLast? with
  | none => exact hp.mono hss
  | some last =>
    simp only
    split
    · exact hp.mono hss
    · have ⟨n, hn, ht⟩ := loop_index hss (r.mmFeatures.drop mmIdx) mmIdx
      intro f hf
      rw [hn, take_add] at hf
      rcases mem_append.mp hf with hf | hf
      · exact Nat.le_trans (hp f hf) hss
      · exact ht f hf

theorem mem_genMm {start stop mmIdx : Nat} {key : ExtraKey}
    (hk : key ∈ (genMmExtraHashKeys r start stop mmIdx).1) :
    ∃ f ∈ r.mmFeatures, key = .mm f.identifier ((f.mmPosition.offset : Int) - start) := by
  simp only [genMmExtraHashKeys] at hk
  cases hl : r.mmFeatures.getLast? with
  | none => simp [hl] at hk
  | some last =>
    rw [hl] at hk
    simp only at hk
    split at hk
    · simp at hk
    · have ⟨f, hf, hid⟩ := mem_loop _ _ hk
      exact ⟨f, mem_of_mem_drop hf, hid⟩
where
  mem_loop (fs : List MultiModalFeatureSpec) (i : Nat)
      (hk : key ∈ (genMmExtraHashKeysLoop start stop fs i).1) :
      ∃ f ∈ fs, key = .mm f.identifier ((f.mmPosition.offset : Int) - start) := by
    induction fs generalizing i with
    | nil => simp [genMmExtraHashKeysLoop] at hk
    | cons f fs ih =>
      have later : key ∈ (genMmExtraHashKeysLoop start stop fs (i + 1)).1 →
          ∃ g ∈ f :: fs, key = .mm g.identifier ((g.mmPosition.offset : Int) - start) := by
        intro hk
        have ⟨g, hg, hid⟩ := ih (i + 1) hk
        exact ⟨g, by simp [hg], hid⟩
      simp only [genMmExtraHashKeysLoop] at hk
      split at hk
      · split at hk
        · exact later hk
        · split at hk
          · rcases mem_cons.mp hk with hk | hk
            · exact ⟨f, by simp, hk⟩
            · exact later hk
          · exact ⟨f, by simp, mem_singleton.mp hk⟩
      · simp at hk

theorem mem_loop_of_clear {start stop : Nat} (pre post : List MultiModalFeatureSpec)
    (f : MultiModalFeatureSpec) (mmIdx : Nat)
    (hpre : ∀ g ∈ pre, g.mmPosition.offset < stop ∧ g.stop ≤ stop)
    (hstart : start < f.stop) (hstop : f.mmPosition.offset < stop) :
    .mm f.identifier ((f.mmPosition.offset : Int) - start) ∈
    (genMmExtraHashKeysLoop start stop (pre ++ f :: post) mmIdx).1 := by
  induction pre generalizing mmIdx with
  | nil =>
    rw [nil_append, genMmExtraHashKeysLoop, if_pos hstop, if_neg (by omega)]
    split <;> simp
  | cons g pre ih =>
    have hg := hpre g (by simp)
    have rest := ih (mmIdx + 1) (fun g hg => hpre g (by simp [hg]))
    rw [cons_append, genMmExtraHashKeysLoop, if_pos hg.1]
    split
    · exact rest
    · rw [if_pos hg.2]
      exact mem_cons_of_mem _ rest

theorem loop_blocked {start stop : Nat} (pre : List MultiModalFeatureSpec)
    (f : MultiModalFeatureSpec) (xs ys : List MultiModalFeatureSpec) (mmIdx : Nat)
    (hss : start ≤ stop) (hf : stop < f.stop) :
    genMmExtraHashKeysLoop start stop (pre ++ f :: xs) mmIdx =
    genMmExtraHashKeysLoop start stop (pre ++ f :: ys) mmIdx := by
  induction pre generalizing mmIdx with
  | nil =>
    simp only [nil_append, genMmExtraHashKeysLoop]
    rw [if_neg (by omega : ¬ start ≥ f.stop), if_neg (by omega : ¬ stop ≥ f.stop),
      if_neg (by omega : ¬ start ≥ f.stop), if_neg (by omega : ¬ stop ≥ f.stop)]
  | cons g pre ih =>
    simp only [cons_append, genMmExtraHashKeysLoop, ih]

theorem bisectLeftLoop_spec {key : Nat → Nat} {x n : Nat}
    (mono : ∀ i j, i ≤ j → j < n → x ≤ key i → x ≤ key j)
    (fuel lo hi : Nat) (hn : hi ≤ n) (hlo : ∀ i < lo, key i < x) :
    ∀ i < bisectLeftLoop key x fuel lo hi, key i < x := by
  induction fuel generalizing lo hi with
  | zero => exact hlo
  | succ fuel ih =>
    simp only [bisectLeftLoop]
    split
    · split
      · refine ih _ _ hn (fun i hi' => ?_)
        by_contra hge
        have := mono i ((lo + hi) / 2) (by omega) (by omega) (by omega)
        omega
      · exact ih _ _ (by omega) hlo
    · exact hlo

theorem SeparatedByBlocks.get {blockSize : Nat}
    (sep : SeparatedByBlocks blockSize r.layout) {i j : Nat} {f g : MultiModalFeatureSpec}
    (hij : i < j) (hf : r.mmFeatures[i]? = some f) (hg : r.mmFeatures[j]? = some g) :
    f.stop ≤ (g.mmPosition.offset / blockSize + 1) * blockSize := by
  have hi : i < r.mmFeatures.length := (List.getElem?_eq_some_iff.mp hf).1
  have hj : j < r.mmFeatures.length := (List.getElem?_eq_some_iff.mp hg).1
  have hp := pairwise_iff_getElem.mp sep i j (by simpa [Request.layout] using hi)
    (by simpa [Request.layout] using hj) hij
  have hfe := (List.getElem?_eq_some_iff.mp hf).2
  have hge := (List.getElem?_eq_some_iff.mp hg).2
  simpa [Request.layout, hfe, hge, MultiModalFeatureSpec.stop] using hp

theorem resume_passed {blockSize m : Nat}
    (sep : SeparatedByBlocks blockSize r.layout) (stop : Nat) :
    Passed r (m * blockSize) (resumeMmIdx r (m * blockSize) stop) := by
  have mono : ∀ i j, i ≤ j → j < r.mmFeatures.length →
      m * blockSize + 1 ≤ (r.mmFeatures[i]?.map MultiModalFeatureSpec.stop).getD 0 →
      m * blockSize + 1 ≤ (r.mmFeatures[j]?.map MultiModalFeatureSpec.stop).getD 0 := by
    intro i j hij hj hi
    rcases Nat.lt_or_eq_of_le hij with hlt | heq
    · have hf := getElem?_eq_getElem (Nat.lt_trans hlt hj)
      have hg := getElem?_eq_getElem hj
      have clear := sep.get hlt hf hg
      have before := (r.mmFeatures[j]).lt_stop
      rw [hf] at hi
      rw [hg]
      simp only [Option.map_some, Option.getD_some] at hi ⊢
      by_contra hstop
      have hdiv : (r.mmFeatures[j]).mmPosition.offset / blockSize < m :=
        Nat.div_lt_of_lt_mul (by rw [Nat.mul_comm]; omega)
      have round : ((r.mmFeatures[j]).mmPosition.offset / blockSize + 1) * blockSize ≤
          m * blockSize := Nat.mul_le_mul_right blockSize hdiv
      omega
    · subst heq
      exact hi
  simp only [resumeMmIdx]
  cases r.mmFeatures.getLast? with
  | none => exact passed_zero _ _
  | some last =>
    simp only
    split
    · intro f hf
      have ⟨i, hi, he⟩ := mem_iff_getElem.mp hf
      simp only [length_take, Nat.lt_min] at hi
      have small := bisectLeftLoop_spec mono r.mmFeatures.length 0 r.mmFeatures.length
        (Nat.le_refl _) (fun i hi => absurd hi (Nat.not_lt_zero i)) i hi.1
      rw [getElem_take] at he
      rw [getElem?_eq_getElem hi.2, he] at small
      simp only [Option.map_some, Option.getD_some] at small
      omega
    · exact passed_zero _ _

theorem mem_genMm_of_separated {blockSize : Nat} (pos : 0 < blockSize)
    (sep : SeparatedByBlocks blockSize r.layout) {f : MultiModalFeatureSpec}
    (hf : f ∈ r.mmFeatures) {start : Nat}
    (hstart : start = f.mmPosition.offset / blockSize * blockSize) :
    .mm f.identifier ((f.mmPosition.offset : Int) - start) ∈
    (genMmExtraHashKeys r start (start + blockSize) 0).1 := by
  have within : start ≤ f.mmPosition.offset ∧ f.mmPosition.offset < start + blockSize := by
    have := Nat.div_add_mod f.mmPosition.offset blockSize
    have := Nat.mod_lt f.mmPosition.offset pos
    rw [Nat.mul_comm] at hstart
    omega
  have ⟨pre, post, split⟩ := append_of_mem hf
  have sorted := r.mmSorted
  rw [split, map_append, map_cons] at sorted
  have parts := pairwise_append.mp sorted
  have last : ∀ last, r.mmFeatures.getLast? = some last → start < last.stop := by
    intro last hl
    have hmem : last ∈ f :: post := by
      rw [split, getLast?_append_of_ne_nil _ (cons_ne_nil _ _)] at hl
      exact mem_of_getLast? hl
    have := last.lt_stop
    rcases mem_cons.mp hmem with he | hp
    · subst he
      omega
    · have := (pairwise_cons.mp parts.2.1).1 _ (mem_map_of_mem hp)
      omega
  have clear : ∀ g ∈ pre, g.mmPosition.offset < start + blockSize ∧ g.stop ≤ start + blockSize := by
    intro g hg
    have hsep := sep
    simp only [SeparatedByBlocks, Request.layout, split, map_append, map_cons] at hsep
    have hgf : g.stop ≤ (f.mmPosition.offset / blockSize + 1) * blockSize :=
      (pairwise_append.mp hsep).2.2 _ (mem_map_of_mem hg) f.mmPosition (by simp)
    rw [Nat.add_mul, Nat.one_mul, ← hstart] at hgf
    exact ⟨Nat.lt_of_lt_of_le g.lt_stop hgf, hgf⟩
  simp only [genMmExtraHashKeys]
  cases hl : r.mmFeatures.getLast? with
  | none =>
    rw [getLast?_eq_none_iff] at hl
    simp [hl] at hf
  | some l =>
    have := last l hl
    have := f.lt_stop
    simp only
    rw [if_neg (by omega), drop_zero, split]
    exact mem_loop_of_clear pre post f 0 clear (by omega) within.2

/-! What a block hash says about a request: the tokens, the adapter, the cache
salt and the multimodal features of the prefix, and that hashing tokens as they
arrive gives the hashes of one pass. Both rest on placeholders that are separated
by hash blocks. -/

namespace BlockHasher

variable {h : BlockHasher}

/-- `r'` has the first `k + 1` blocks of `r`: its tokens, adapter and salt, and
every feature of `r` that overlaps them. -/
structure SamePrefix (h : BlockHasher) (r r' : Request) (k : Nat) : Prop where
  tokens : r.allTokenIds.take ((k + 1) * h.hashBlockSize) =
    r'.allTokenIds.take ((k + 1) * h.hashBlockSize)
  lora : r.loraRequest.map (fun l => (l.loraName, l.loraPath)) =
    r'.loraRequest.map (fun l => (l.loraName, l.loraPath))
  salt : r.cacheSalt = r'.cacheSalt
  features : ∀ f ∈ r.mmFeatures, f.mmPosition.offset < (k + 1) * h.hashBlockSize →
    ∃ g ∈ r'.mmFeatures, g.identifier = f.identifier ∧
      g.mmPosition.offset = f.mmPosition.offset

theorem blockKeys_getD (r : Request) (start mmIdx : Nat) : (h.blockKeys r start mmIdx).getD [] =
    genLoraExtraHashKeys r ++ (genMmExtraHashKeys r start (start + h.hashBlockSize) mmIdx).1 ++
    cacheSaltKeys r start ++ genPromptEmbedsExtraHashKeys h r start (start + h.hashBlockSize) := by
  simp only [blockKeys, generateBlockHashExtraKeys]
  split
  · rename_i hnil
    exact hnil.symm
  · rfl

theorem mem_blockKeys_mm (r : Request) (start mmIdx : Nat) (id : String) (off : Int) :
    .mm id off ∈ (h.blockKeys r start mmIdx).getD [] ↔
    .mm id off ∈ (genMmExtraHashKeys r start (start + h.hashBlockSize) mmIdx).1 := by
  rw [blockKeys_getD]
  simp only [genLoraExtraHashKeys, cacheSaltKeys, genPromptEmbedsExtraHashKeys]
  cases r.loraRequest <;> cases r.cacheSalt <;> cases r.promptEmbeds <;> simp

theorem mem_blockKeys_lora (r : Request) (start mmIdx : Nat) (name path : String) :
    .lora name path ∈ (h.blockKeys r start mmIdx).getD [] ↔
    r.loraRequest.map (fun l => (l.loraName, l.loraPath)) = some (name, path) := by
  have hmm : .lora name path ∉ (genMmExtraHashKeys r start (start + h.hashBlockSize) mmIdx).1 := by
    intro hk
    have ⟨f, _, he⟩ := mem_genMm hk
    cases he
  rw [blockKeys_getD]
  simp only [mem_append, hmm, or_false, genLoraExtraHashKeys, cacheSaltKeys,
    genPromptEmbedsExtraHashKeys]
  cases r.loraRequest <;> cases r.cacheSalt <;> cases r.promptEmbeds <;> simp [eq_comm]

theorem mem_blockKeys_salt (r : Request) (mmIdx : Nat) (salt : {s : String // s ≠ ""}) :
    .cacheSalt salt ∈ (h.blockKeys r 0 mmIdx).getD [] ↔ r.cacheSalt = some salt := by
  have hmm : .cacheSalt salt ∉ (genMmExtraHashKeys r 0 (0 + h.hashBlockSize) mmIdx).1 := by
    intro hk
    have ⟨f, _, he⟩ := mem_genMm hk
    cases he
  rw [blockKeys_getD]
  simp only [mem_append, hmm, or_false, genLoraExtraHashKeys, cacheSaltKeys,
    genPromptEmbedsExtraHashKeys]
  cases r.loraRequest <;> cases r.cacheSalt <;> cases r.promptEmbeds <;>
    simp [eq_comm, Subtype.ext_iff]

theorem blockKeys_of_passed {start mmIdx : Nat} (hp : Passed r start mmIdx) :
    h.blockKeys r start mmIdx = h.blockKeys r start 0 := by
  have hpos := h.hashBlockSize_pos
  simp only [blockKeys, generateBlockHashExtraKeys]
  rw [genMm_eq_of_passed (by omega) hp]

theorem passed_step (r : Request) (start mmIdx : Nat) (hp : Passed r start mmIdx) :
    Passed r (start + h.hashBlockSize)
    (generateBlockHashExtraKeys h r start (start + h.hashBlockSize) mmIdx).2 :=
  passed_next (Nat.le_add_right _ _) hp

theorem newRequest_hashed (r : Request) : h.Hashed (Passed r) (h.newRequest r) := by
  refine updateBlockHashes_hashed (.nil _ _) (passed_step _) ?_
  simp only [length_nil, Nat.zero_mul]
  have first : resumeMmIdx { r with blockHashes := [] } 0 (0 + h.hashBlockSize) = 0 := by
    simp only [resumeMmIdx]
    split <;> simp
  rw [first]
  exact passed_zero _ _

theorem Built.hashed (hr : h.Built r) : h.Hashed (fun _ _ => True) r := by
  induction hr with
  | new r => exact ⟨(newRequest_hashed r).chain.weaken (fun _ _ _ => trivial),
      (newRequest_hashed r).length⟩
  | append ts _ ih =>
    exact updateBlockHashes_hashed (ih.chain.append_tokens ts _) (fun _ _ _ => trivial) trivial

theorem Built.hashed_passed (hr : h.Built r)
    (sep : SeparatedByBlocks h.hashBlockSize r.layout) : h.Hashed (Passed r) r := by
  induction hr with
  | new r => exact newRequest_hashed r
  | append ts _ ih =>
    exact updateBlockHashes_hashed ((ih sep).chain.append_tokens ts _) (passed_step _)
      (resume_passed sep _)

theorem take_add_slice (xs : List Nat) (m n : Nat) :
    xs.take (m + n) = xs.take m ++ slice xs m (m + n) := by
  have h := take_append_drop m (xs.take (m + n))
  rw [take_take, Nat.min_eq_left (Nat.le_add_right m n)] at h
  exact h.symm

theorem take_eq_of_blocks {r r' : Request} (n : Nat)
    (blocks : ∀ j < n, h.blockTokens r (j * h.hashBlockSize) =
    h.blockTokens r' (j * h.hashBlockSize)) :
    r.allTokenIds.take (n * h.hashBlockSize) = r'.allTokenIds.take (n * h.hashBlockSize) := by
  induction n with
  | zero => simp
  | succ n ih =>
    have last := blocks n (by omega)
    simp only [blockTokens] at last
    rw [Nat.add_mul, Nat.one_mul, take_add_slice, take_add_slice,
      ih (fun j hj => blocks j (by omega)), last]

theorem samePrefix_of_hash_eq (inj : Function.Injective h.hashFunction)
    (fresh : ∀ t, h.hashFunction t ≠ h.noneHash) {r r' : Request} (hr : h.Built r)
    (hr' : h.Built r') (sep : SeparatedByBlocks h.hashBlockSize r.layout) {k : Nat}
    {x : BlockHash} (hx : r.blockHashes[k]? = some x) (hy : r'.blockHashes[k]? = some x) :
    h.SamePrefix r r' k := by
  have same := ((hr.hashed_passed sep).chain.eq_of_hash_eq inj fresh hr'.hashed.chain hx hy).2
  simp only [Nat.zero_add] at same
  have keys : ∀ j ≤ k, ∃ i, h.blockKeys r (j * h.hashBlockSize) 0 =
      h.blockKeys r' (j * h.hashBlockSize) i := by
    intro j hj
    have ⟨i, i', hp, _, _, hk⟩ := same j hj
    exact ⟨i', by rw [← blockKeys_of_passed hp, hk]⟩
  have ⟨i, first⟩ := keys 0 (Nat.zero_le k)
  rw [Nat.zero_mul] at first
  constructor
  · refine take_eq_of_blocks (k + 1) (fun j hj => ?_)
    have ⟨_, _, _, _, ht, _⟩ := same j (by omega)
    exact ht
  · apply Option.ext
    intro ⟨name, path⟩
    rw [← mem_blockKeys_lora (h := h) r 0 0, ← mem_blockKeys_lora (h := h) r' 0 i, first]
  · apply Option.ext
    intro salt
    rw [← mem_blockKeys_salt (h := h) r 0, ← mem_blockKeys_salt (h := h) r' i, first]
  · intro f hf hover
    have hj : f.mmPosition.offset / h.hashBlockSize ≤ k :=
      Nat.lt_succ_iff.mp ((Nat.div_lt_iff_lt_mul h.hashBlockSize_pos).mpr hover)
    have ⟨i, hk⟩ := keys _ hj
    have recorded := mem_genMm_of_separated h.hashBlockSize_pos sep hf rfl
    rw [← mem_blockKeys_mm (h := h), hk, mem_blockKeys_mm] at recorded
    have ⟨g, hg, he⟩ := mem_genMm recorded
    simp only [ExtraKey.mm.injEq] at he
    exact ⟨g, hg, he.1.symm, by omega⟩

theorem foldl_appendOutputTokenIds (r : Request) (appends : List (List Nat)) :
    ∃ hashes, appends.foldl h.appendOutputTokenIds r =
    { r with allTokenIds := r.allTokenIds ++ appends.flatten, blockHashes := hashes } := by
  induction appends generalizing r with
  | nil => exact ⟨r.blockHashes, by simp⟩
  | cons ts appends ih =>
    obtain ⟨hashes, e⟩ := ih (h.appendOutputTokenIds r ts)
    exact ⟨hashes, by rw [foldl_cons, e]; simp [appendOutputTokenIds, updateBlockHashes]⟩

theorem Built.foldl (hr : h.Built r) (appends : List (List Nat)) :
    h.Built (appends.foldl h.appendOutputTokenIds r) := by
  induction appends generalizing r with
  | nil => exact hr
  | cons ts appends ih => exact ih (hr.append ts)

theorem incremental_eq_onePass
    (sep : SeparatedByBlocks h.hashBlockSize r.layout) (appends : List (List Nat)) :
    (appends.foldl h.appendOutputTokenIds (h.newRequest r)).blockHashes =
    (h.newRequest { r with allTokenIds := r.allTokenIds ++ appends.flatten }).blockHashes := by
  have ⟨hashes, e⟩ := foldl_appendOutputTokenIds (h := h) (h.newRequest r) appends
  have built := (Built.new (h := h) r).foldl appends
  have one := newRequest_hashed (h := h)
    { r with allTokenIds := r.allTokenIds ++ appends.flatten }
  have many := built.hashed_passed (by rw [e]; exact sep)
  refine many.chain.unique one.chain ?_ ?_ ?_
  · rw [many.length, one.length, e]
    rfl
  · intro s _
    rw [e]
    rfl
  · intro s i j _ hi hj
    have restart : h.blockKeys (h.newRequest
        { r with allTokenIds := r.allTokenIds ++ appends.flatten }) s j =
        h.blockKeys { r with allTokenIds := r.allTokenIds ++ appends.flatten } s 0 :=
      blockKeys_of_passed hj
    rw [blockKeys_of_passed hi, restart, e]
    rfl

variable (pre mid post : List PlaceholderRange)

/-- The features of a layout `pre ++ p :: (mid ++ q :: post)`, all alike but for `q`. -/
def taggedFeatures (p q : PlaceholderRange)
    (tag : String) : List MultiModalFeatureSpec :=
  pre.map (.mk "") ++ .mk "" p :: (mid.map (.mk "") ++ .mk tag q :: post.map (.mk ""))

theorem taggedFeatures_layout (p q : PlaceholderRange)
    (tag : String) : (taggedFeatures pre mid post p q tag).map MultiModalFeatureSpec.mmPosition =
    pre ++ p :: (mid ++ q :: post) := by
  simp [taggedFeatures, Function.comp_def]

theorem taggedFeatures_plain {pre mid post : List PlaceholderRange} {p q : PlaceholderRange}
    {f : MultiModalFeatureSpec} (hf : f ∈ taggedFeatures pre mid post p q "") :
    f.identifier = "" := by
  simp only [taggedFeatures, mem_append, mem_cons, mem_map] at hf
  grind

theorem taggedFeatures_keys {pre mid post : List PlaceholderRange} {p q : PlaceholderRange}
    (r r' : Request) {tag tag' : String} (hr : r.mmFeatures = taggedFeatures pre mid post p q tag)
    (hr' : r'.mmFeatures = taggedFeatures pre mid post p q tag') {start stop : Nat}
    (hss : start ≤ stop) (hstop : stop < p.offset + p.length) :
    (genMmExtraHashKeys r start stop 0).1 = (genMmExtraHashKeys r' start stop 0).1 := by
  have blocked := loop_blocked (pre.map (.mk "")) (.mk "" p)
    (mid.map (.mk "") ++ .mk tag q :: post.map (.mk ""))
    (mid.map (.mk "") ++ .mk tag' q :: post.map (.mk "")) 0 hss hstop
  have last : r.mmFeatures.getLast?.map MultiModalFeatureSpec.mmPosition =
      r'.mmFeatures.getLast?.map MultiModalFeatureSpec.mmPosition := by
    rw [← getLast?_map, ← getLast?_map, hr, hr', taggedFeatures_layout,
      taggedFeatures_layout]
  simp only [genMmExtraHashKeys]
  cases hl : r.mmFeatures.getLast? <;> cases hl' : r'.mmFeatures.getLast? <;>
    simp only [hl, hl', Option.map_some, Option.map_none, reduceCtorEq, Option.some.injEq] at last ⊢
  simp only [MultiModalFeatureSpec.stop, last]
  rw [drop_zero, drop_zero, hr, hr', taggedFeatures, taggedFeatures, blocked]
  rfl

/-- Placeholders that are not separated: two requests that differ in one feature of
the prefix and hash alike. -/
theorem not_samePrefix_of_not_separated {layout : List PlaceholderRange}
    (sorted : layout.Pairwise fun p q => p.offset ≤ q.offset)
    (nsep : ¬ SeparatedByBlocks h.hashBlockSize layout) :
    ∃ r r', h.Built r ∧ h.Built r' ∧ r.layout = layout ∧ r'.layout = layout ∧
    ∃ k x, r.blockHashes[k]? = some x ∧ r'.blockHashes[k]? = some x ∧ ¬ h.SamePrefix r r' k := by
  have ⟨p, q, hpq, hrun⟩ : ∃ p q, [p, q].Sublist layout ∧
      (q.offset / h.hashBlockSize + 1) * h.hashBlockSize < p.offset + p.length := by
    by_contra hno
    refine nsep (pairwise_iff_forall_sublist.mpr (fun {p q} hpq => ?_))
    by_contra hrun
    exact hno ⟨p, q, hpq, by omega⟩
  have ⟨l₁, l₂, hl, hp, hq⟩ := cons_sublist_iff.mp hpq
  have ⟨pre, mid₁, h₁⟩ := append_of_mem hp
  have ⟨mid₂, post, h₂⟩ := append_of_mem (singleton_sublist.mp hq)
  have hlayout : layout = pre ++ p :: ((mid₁ ++ mid₂) ++ q :: post) := by
    rw [hl, h₁, h₂]
    simp
  let request (tag : String) : Request :=
    { requestId := ""
      allTokenIds := List.replicate ((q.offset / h.hashBlockSize + 1) * h.hashBlockSize) 0
      mmFeatures := taggedFeatures pre (mid₁ ++ mid₂) post p q tag
      mmSorted := by rw [taggedFeatures_layout, ← hlayout]; exact sorted
      loraRequest := none
      cacheSalt := none
      promptEmbeds := none
      sessionId := none
      blockHashes := [] }
  have tokens (tag : String) : (request tag).numTokens =
      (q.offset / h.hashBlockSize + 1) * h.hashBlockSize := length_replicate
  have chain (tag : String) := newRequest_hashed (h := h) (request tag)
  have keys (s : Nat) (hs : s + h.hashBlockSize ≤ (request "new").numTokens) :
      h.blockKeys (request "new") s 0 = h.blockKeys (request "") s 0 := by
    have same := taggedFeatures_keys (request "new") (request "") rfl rfl
      (Nat.le_add_right s h.hashBlockSize) (Nat.lt_of_le_of_lt (tokens "new" ▸ hs) hrun)
    simp only [blockKeys, generateBlockHashExtraKeys, same]
    rfl
  have hashes : (h.newRequest (request "new")).blockHashes =
      (h.newRequest (request "")).blockHashes := by
    refine (chain "new").chain.unique (chain "").chain ?_ (fun _ _ => rfl) ?_
    · rw [(chain "new").length, (chain "").length]
      rfl
    · intro s i j hs hi hj
      exact (blockKeys_of_passed hi).trans ((keys s hs).trans (blockKeys_of_passed hj).symm)
  have reached : q.offset / h.hashBlockSize < (h.newRequest (request "new")).blockHashes.length := by
    have count : (h.newRequest (request "new")).blockHashes.length =
        (q.offset / h.hashBlockSize + 1) * h.hashBlockSize / h.hashBlockSize := by
      rw [(chain "new").length]
      exact congrArg (· / h.hashBlockSize) (tokens "new")
    rw [count, Nat.mul_div_cancel _ h.hashBlockSize_pos]
    omega
  refine ⟨_, _, .new (request "new"), .new (request ""), ?_, ?_,
    q.offset / h.hashBlockSize, _, getElem?_eq_getElem reached,
    hashes ▸ getElem?_eq_getElem reached, fun same => ?_⟩
  · exact (taggedFeatures_layout _ _ _ _ _ _).trans hlayout.symm
  · exact (taggedFeatures_layout _ _ _ _ _ _).trans hlayout.symm
  · have within : q.offset < (q.offset / h.hashBlockSize + 1) * h.hashBlockSize :=
      (Nat.div_lt_iff_lt_mul h.hashBlockSize_pos).mp (Nat.lt_succ_self _)
    have ⟨g, hg, hid, _⟩ := same.features ⟨"new", q⟩
      (by simp [newRequest, updateBlockHashes, request, taggedFeatures]) within
    have plain : g.identifier = "" := taggedFeatures_plain hg
    rw [plain] at hid
    exact absurd hid (by simp)

/-- A layout is hashed soundly and independently of how tokens arrive exactly when
its placeholders are separated by hash blocks. -/
theorem hashes_identify_prefix_iff (h : BlockHasher) (inj : Function.Injective h.hashFunction)
    (fresh : ∀ t, h.hashFunction t ≠ h.noneHash) (layout : List PlaceholderRange)
    (sorted : layout.Pairwise fun p q => p.offset ≤ q.offset) :
    ((∀ r r', h.Built r → h.Built r' → r.layout = layout → ∀ k x,
        r.blockHashes[k]? = some x → r'.blockHashes[k]? = some x → h.SamePrefix r r' k) ∧
      ∀ (r : Request) (appends : List (List Nat)), r.layout = layout →
        (appends.foldl h.appendOutputTokenIds (h.newRequest r)).blockHashes =
          (h.newRequest { r with allTokenIds := r.allTokenIds ++ appends.flatten }).blockHashes) ↔
      SeparatedByBlocks h.hashBlockSize layout := by
  constructor
  · intro ⟨same, _⟩
    by_contra nsep
    have ⟨r, r', hr, hr', hl, _, k, x, hx, hy, hne⟩ :=
      not_samePrefix_of_not_separated sorted nsep
    exact hne (same r r' hr hr' hl k x hx hy)
  · intro sep
    constructor
    · intro r r' hr hr' hl k x hx hy
      exact samePrefix_of_hash_eq inj fresh hr hr' (hl ▸ sep) hx hy
    · intro r appends hl
      exact incremental_eq_onePass (hl ▸ sep) appends

def keyCode : ExtraKey → Nat × List Nat × List Nat × Int
  | .lora name path => (0, name.toList.map Char.toNat, path.toList.map Char.toNat, 0)
  | .mm identifier offset => (1, identifier.toList.map Char.toNat, [], offset)
  | .cacheSalt salt => (2, salt.toList.map Char.toNat, [], 0)
  | .promptEmbeds digest => (3, digest.map UInt8.toNat, [], 0)

/-- An injective hash: the number of the hashed triple, written in unary. -/
def unaryHasher : BlockHasher where
  hashBlockSize := 16
  hashBlockSize_pos := by decide
  hashFunction := fun (parent, tokens, keys) => List.replicate
    (Encodable.encode (parent.map UInt8.toNat, tokens, keys.map (List.map keyCode))) 0
  noneHash := [1]
  sha256 := id

theorem keyCode_injective : Function.Injective keyCode := by
  have chars : ∀ s t : String, s.toList.map Char.toNat = t.toList.map Char.toNat → s = t :=
    fun s t e => String.toList_inj.mp (map_injective_iff.mpr
      (fun _ _ => Char.toNat_inj.mp) e)
  have bytes : ∀ s t : Bytes, s.map UInt8.toNat = t.map UInt8.toNat → s = t :=
    fun s t e => map_injective_iff.mpr (fun _ _ => UInt8.toNat_inj.mp) e
  intro a b e
  cases a <;> cases b <;> simp only [keyCode, Prod.mk.injEq, reduceCtorEq] at e <;> grind

theorem unaryHasher_injective : Function.Injective unaryHasher.hashFunction := by
  intro ⟨p, t, k⟩ ⟨p', t', k'⟩ e
  have n := congrArg List.length e
  simp only [unaryHasher, length_replicate] at n
  have parts := Encodable.encode_injective n
  simp only [Prod.mk.injEq] at parts
  have hp : p = p' := map_injective_iff.mpr (fun _ _ => UInt8.toNat_inj.mp) parts.1
  have hk : k = k' := Option.map_injective (map_injective_iff.mpr keyCode_injective) parts.2.2
  rw [hp, parts.2.1, hk]

theorem unaryHasher_fresh (t : BlockHash × List Nat × Option (List ExtraKey)) :
    unaryHasher.hashFunction t ≠ unaryHasher.noneHash := by
  intro e
  have one : (1 : UInt8) ∈ unaryHasher.hashFunction t := e ▸ mem_singleton_self _
  exact absurd (eq_of_mem_replicate one) (by decide)

theorem hashes_identify_prefix_two_images : (∀ r r', unaryHasher.Built r → unaryHasher.Built r' →
    r.layout = [⟨0, 20, by decide⟩, ⟨20, 8, by decide⟩] → ∀ k x,
    r.blockHashes[k]? = some x → r'.blockHashes[k]? = some x → unaryHasher.SamePrefix r r' k) ∧
    ∀ (r : Request) (appends : List (List Nat)),
    r.layout = [⟨0, 20, by decide⟩, ⟨20, 8, by decide⟩] →
    (appends.foldl unaryHasher.appendOutputTokenIds (unaryHasher.newRequest r)).blockHashes =
    (unaryHasher.newRequest
    { r with allTokenIds := r.allTokenIds ++ appends.flatten }).blockHashes :=
  (hashes_identify_prefix_iff unaryHasher unaryHasher_injective unaryHasher_fresh _
    (by decide)).mpr (by decide)

/-- A clip whose sound track and frames fill the same placeholder tokens. -/
def clip (frames : String) : Request where
  requestId := "clip"
  allTokenIds := List.replicate 20 7
  mmFeatures := [⟨"sound", ⟨0, 20, by decide⟩⟩, ⟨frames, ⟨0, 20, by decide⟩⟩]
  mmSorted := by simp
  loraRequest := none
  cacheSalt := none
  promptEmbeds := none
  sessionId := none
  blockHashes := []

theorem clip_hashes (frames : String) : (unaryHasher.newRequest (clip frames)).blockHashes =
    [unaryHasher.hashFunction (unaryHasher.noneHash, List.replicate 16 7,
    some [.mm "sound" 0])] := by
  rfl

theorem clips_with_one_sound_hash_alike : Function.Injective unaryHasher.hashFunction ∧
    (∀ t, unaryHasher.hashFunction t ≠ unaryHasher.noneHash) ∧
    (unaryHasher.newRequest (clip "day")).blockHashes[0]?.isSome ∧
    (unaryHasher.newRequest (clip "day")).blockHashes[0]? =
    (unaryHasher.newRequest (clip "night")).blockHashes[0]? ∧
    ¬ unaryHasher.SamePrefix (unaryHasher.newRequest (clip "day"))
    (unaryHasher.newRequest (clip "night")) 0 := by
  refine ⟨unaryHasher_injective, unaryHasher_fresh, by rw [clip_hashes]; rfl,
    by rw [clip_hashes, clip_hashes], fun same => ?_⟩
  have ⟨g, hg, hid, _⟩ := same.features ⟨"day", ⟨0, 20, by decide⟩⟩
    (by simp [newRequest, updateBlockHashes, clip]) (by decide)
  simp only [newRequest, updateBlockHashes, clip, mem_cons, not_mem_nil, or_false] at hg
  rcases hg with rfl | rfl
  · exact absurd hid (by decide)
  · exact absurd hid (by decide)

end BlockHasher

end VllmAmpere
