import Mathlib.Data.List.Induction
import VllmAmpere.Request

/-! Block hashes of a request: the extra keys of a block, the hash chained over
its prefix and the incremental hasher that runs whenever tokens are appended. -/

open List

namespace VllmAmpere

/-- A tagged extra key of a block. -/
inductive ExtraKey
  | lora (name path : String)
  | mm (identifier : String) (offset : Int)
  | cacheSalt (salt : String)
  | promptEmbeds (digest : Bytes)
  deriving DecidableEq, Repr

/-- What the hasher is built from: `hash_block_size`, the caching hash function,
`NONE_HASH` and the SHA-256 digest of embedding rows. -/
structure BlockHasher where
  hashBlockSize : Nat
  hashBlockSize_pos : 0 < hashBlockSize
  hashFunction : BlockHash × List Nat × Option (List ExtraKey) → BlockHash
  noneHash : BlockHash
  sha256 : Bytes → Bytes

/-- The loop of `_gen_mm_extra_hash_keys` from the feature at `currMmIdx` on. -/
def genMmExtraHashKeysLoop (startTokenIdx endTokenIdx : Nat) :
    List MultiModalFeatureSpec → Nat → List ExtraKey × Nat
  | [], currMmIdx => ([], currMmIdx)
  | mmFeature :: rest, currMmIdx =>
    if endTokenIdx > mmFeature.mmPosition.offset then
      if startTokenIdx ≥ mmFeature.stop then
        genMmExtraHashKeysLoop startTokenIdx endTokenIdx rest (currMmIdx + 1)
      else
        let key := ExtraKey.mm mmFeature.identifier
          ((mmFeature.mmPosition.offset : Int) - startTokenIdx)
        if endTokenIdx ≥ mmFeature.stop then
          let (extraKeys, nextMmIdx) :=
            genMmExtraHashKeysLoop startTokenIdx endTokenIdx rest (currMmIdx + 1)
          (key :: extraKeys, nextMmIdx)
        else ([key], currMmIdx)
    else ([], currMmIdx)

variable (request : Request)

/-- The multimodal keys of a block and the index to resume from. Every caller
passes a non-negative `startMmIdx`. -/
def genMmExtraHashKeys (startTokenIdx endTokenIdx startMmIdx : Nat) :
    List ExtraKey × Nat :=
  match request.mmFeatures.getLast? with
  | none => ([], startMmIdx)
  | some last =>
    if last.stop ≤ startTokenIdx then ([], startMmIdx)
    else genMmExtraHashKeysLoop startTokenIdx endTokenIdx
      (request.mmFeatures.drop startMmIdx) startMmIdx

def genLoraExtraHashKeys : List ExtraKey :=
  match request.loraRequest with
  | none => []
  | some lora => [.lora lora.loraName lora.loraPath]

variable (h : BlockHasher)

def genPromptEmbedsExtraHashKeys (request : Request)
    (startTokenIdx endTokenIdx : Nat) : List ExtraKey :=
  match request.promptEmbeds with
  | none => []
  | some rows => [.promptEmbeds (h.sha256 (slice rows startTokenIdx endTokenIdx).flatten)]

def cacheSaltKeys (startTokenIdx : Nat) : List ExtraKey :=
  match request.cacheSalt with
  | some salt => if startTokenIdx = 0 then [.cacheSalt salt] else []
  | none => []

def generateBlockHashExtraKeys (request : Request)
    (startTokenIdx endTokenIdx startMmIdx : Nat) : Option (List ExtraKey) × Nat :=
  let (mmExtraKeys, newStartMmIdx) :=
    genMmExtraHashKeys request startTokenIdx endTokenIdx startMmIdx
  let extraKeys := genLoraExtraHashKeys request ++ mmExtraKeys ++
    cacheSaltKeys request startTokenIdx ++
    genPromptEmbedsExtraHashKeys h request startTokenIdx endTokenIdx
  (if extraKeys = [] then none else some extraKeys, newStartMmIdx)

/-- An extra key as KV events publish it, without its tag. -/
inductive EventExtraKey
  | text (value : String)
  | mm (identifier : String) (offset : Int)
  | digest (value : Bytes)
  deriving DecidableEq, Repr

/-- A LoRA key is published as its name, `key[1]`. -/
def ExtraKey.toEvent : ExtraKey → EventExtraKey
  | .lora name _ => .text name
  | .mm identifier offset => .mm identifier offset
  | .cacheSalt salt => .text salt
  | .promptEmbeds digest => .digest digest

def toEventExtraKeys (extraKeys : List (Option (List ExtraKey))) :
    Option (List (Option (List EventExtraKey))) :=
  if extraKeys = [] then none
  else some (extraKeys.map (Option.map (List.map ExtraKey.toEvent)))

def hashBlockTokens (parentBlockHash : Option BlockHash)
    (currBlockTokenIds : List Nat) (extraKeys : Option (List ExtraKey)) : BlockHash :=
  let parent := match parentBlockHash with
    | none => h.noneHash
    | some hash => if hash = [] then h.noneHash else hash
  h.hashFunction (parent, currBlockTokenIds, extraKeys)

/-- The loop of `bisect.bisect_left` over the keys `key lo, …, key (hi - 1)`;
`hi - lo` rounds are enough. -/
def bisectLeftLoop (key : Nat → Nat) (x : Nat) : Nat → Nat → Nat → Nat
  | 0, lo, _ => lo
  | fuel + 1, lo, hi =>
    if lo < hi then
      let mid := (lo + hi) / 2
      if key mid < x then bisectLeftLoop key x fuel (mid + 1) hi
      else bisectLeftLoop key x fuel lo mid
    else lo

def bisectLeft {α : Type*} (a : List α) (x : Nat) (key : α → Nat) : Nat :=
  bisectLeftLoop (fun i => (a[i]?.map key).getD 0) x a.length 0 a.length

def getMmFeaturesInWindow (mmFeatures : List MultiModalFeatureSpec) (start stop : Nat) :
    Nat × Nat :=
  (bisectLeft mmFeatures (start + 1) MultiModalFeatureSpec.stop,
    bisectLeft mmFeatures stop fun f => f.mmPosition.offset)

/-- The feature index the hasher starts from when it resumes at `startTokenIdx`. -/
def resumeMmIdx (startTokenIdx endTokenIdx : Nat) : Nat :=
  match request.mmFeatures.getLast? with
  | none => 0
  | some last =>
    if startTokenIdx > 0 ∧ last.stop > startTokenIdx then
      (getMmFeaturesInWindow request.mmFeatures startTokenIdx endTokenIdx).1
    else 0

namespace BlockHasher

/-- The `while True` loop of `request_block_hasher`; each round hashes a full
block, so as many rounds as tokens are enough. -/
def hashLoop (h : BlockHasher) (request : Request) :
    Nat → Nat → Nat → Option BlockHash → List BlockHash
  | 0, _, _, _ => []
  | fuel + 1, startTokenIdx, currMmIdx, prevBlockHashValue =>
    let endTokenIdx := startTokenIdx + h.hashBlockSize
    if endTokenIdx > request.numTokens then []
    else
      let (extraKeys, nextMmIdx) :=
        generateBlockHashExtraKeys h request startTokenIdx endTokenIdx currMmIdx
      let blockHash := hashBlockTokens h prevBlockHashValue
        (slice request.allTokenIds startTokenIdx endTokenIdx) extraKeys
      blockHash :: hashLoop h request fuel endTokenIdx nextMmIdx (some blockHash)

variable (h : BlockHasher)

def requestBlockHasher (request : Request) : List BlockHash :=
  let startTokenIdx := request.blockHashes.length * h.hashBlockSize
  if startTokenIdx + h.hashBlockSize > request.numTokens then []
  else h.hashLoop request request.numTokens startTokenIdx
    (resumeMmIdx request startTokenIdx (startTokenIdx + h.hashBlockSize))
    request.blockHashes.getLast?

def updateBlockHashes (request : Request) : Request :=
  { request with blockHashes := request.blockHashes ++ h.requestBlockHasher request }

def newRequest (request : Request) : Request :=
  h.updateBlockHashes { request with blockHashes := [] }

def appendOutputTokenIds (request : Request) (tokenIds : List Nat) : Request :=
  h.updateBlockHashes { request with allTokenIds := request.allTokenIds ++ tokenIds }

/-- The requests the scheduler can hold: built once, then fed tokens. -/
inductive Built (h : BlockHasher) : Request → Prop
  | new (request : Request) : Built h (h.newRequest request)
  | append {request : Request} (tokenIds : List Nat) :
      Built h request → Built h (h.appendOutputTokenIds request tokenIds)

end BlockHasher

/-- Block hashes as a group reads them: the list itself, or its view at a block
size that is `scaleFactor` times the hash block size. -/
inductive BlockHashList
  | list (blockHashes : List BlockHash)
  | withBlockSize (blockHashes : List BlockHash) (scaleFactor : Nat)
  deriving DecidableEq, Repr

namespace BlockHashList

def length : BlockHashList → Nat
  | list blockHashes => blockHashes.length
  | withBlockSize blockHashes scaleFactor => blockHashes.length / scaleFactor

def getItem : BlockHashList → Nat → Except PyError BlockHash
  | list blockHashes, idx => pyGet blockHashes idx
  | withBlockSize blockHashes scaleFactor, idx => pyGet blockHashes ((idx + 1) * scaleFactor - 1)

/-- `block_hashes[start:]`. -/
def sliceFrom : BlockHashList → Nat → List BlockHash
  | list blockHashes, start => blockHashes.drop start
  | withBlockSize blockHashes scaleFactor, start =>
    (List.range' start (blockHashes.length / scaleFactor - start)).filterMap
      fun idx => blockHashes[(idx + 1) * scaleFactor - 1]?

theorem sliceFrom_getElem? (hashes : List BlockHash) {scaleFactor : Nat} (hs : 0 < scaleFactor)
    (start i : Nat) : ((withBlockSize hashes scaleFactor).sliceFrom start)[i]? =
    hashes[(start + i + 1) * scaleFactor - 1]? := by
  have hin : ∀ idx, idx < hashes.length / scaleFactor ↔
      (idx + 1) * scaleFactor - 1 < hashes.length := by
    intro idx
    have h := Nat.le_div_iff_mul_le (x := idx + 1) (y := hashes.length) hs
    have hpos : 0 < (idx + 1) * scaleFactor := Nat.mul_pos (Nat.succ_pos idx) hs
    omega
  have hmap : (withBlockSize hashes scaleFactor).sliceFrom start =
      (List.range' start (hashes.length / scaleFactor - start)).map
        fun idx => hashes.getD ((idx + 1) * scaleFactor - 1) [] := by
    simp only [sliceFrom]
    rw [← filterMap_eq_map]
    apply filterMap_congr
    intro idx hidx
    rw [mem_range'_1] at hidx
    simp [(hin idx).mp (by omega)]
  rw [hmap, getElem?_map]
  by_cases hi : start + i < hashes.length / scaleFactor
  · have hlen : i < hashes.length / scaleFactor - start := by omega
    simp [hlen, (hin _).mp hi]
  · have hout := (hin _).not.mp hi
    have hlen : ¬i < hashes.length / scaleFactor - start := by omega
    simp [hlen, getElem?_eq_none (Nat.not_lt.mp hout)]

end BlockHashList

def resolveBlockHashes (blockHashes : BlockHashList) (hashBlockSize blockSize : Nat)
    (supportsFineGrainedHashLookup : Bool) (alignmentTokens : Option Nat) :
    Except PyError BlockHashList :=
  if blockSize = hashBlockSize then .ok blockHashes
  else match blockHashes with
    | .withBlockSize _ scaleFactor => do
      pyAssert (scaleFactor = blockSize / hashBlockSize)
        "block_hashes.scale_factor == block_size // hash_block_size"
      .ok blockHashes
    | .list hashes =>
      let fine := match alignmentTokens with
        | some alignment => supportsFineGrainedHashLookup && alignment < blockSize &&
            blockSize % alignment == 0
        | none => false
      if fine then .ok blockHashes
      else do
        pyAssert (blockSize % hashBlockSize = 0) "block_size % hash_block_size == 0"
        .ok (.withBlockSize hashes (blockSize / hashBlockSize))

/-! Block hashes form a chain: each hash is taken over its parent, the tokens of
its block and some extra keys. With an injective hash function one hash fixes
the whole chain before it. -/

namespace BlockHasher

variable {h : BlockHasher} {ok : Nat → Nat → Prop}

/-- The tokens of the block that starts at `start`. -/
def blockTokens (h : BlockHasher) (r : Request) (start : Nat) : List Nat :=
  slice r.allTokenIds start (start + h.hashBlockSize)

/-- The extra keys of the block that starts at `start`, gathered from `mmIdx`. -/
def blockKeys (h : BlockHasher) (r : Request) (start mmIdx : Nat) : Option (List ExtraKey) :=
  (generateBlockHashExtraKeys h r start (start + h.hashBlockSize) mmIdx).1

/-- `hashes` are the chained hashes of the blocks of `r` from `start` on, each
gathered from a feature index that `ok` admits at the block's start. -/
inductive Chain (h : BlockHasher) (ok : Nat → Nat → Prop) (r : Request) :
    Nat → Option BlockHash → List BlockHash → Prop
  | nil (start : Nat) (prev : Option BlockHash) : Chain h ok r start prev []
  | cons {start mmIdx : Nat} {prev : Option BlockHash} {hashes : List BlockHash} :
      ok start mmIdx → start + h.hashBlockSize ≤ r.numTokens →
      Chain h ok r (start + h.hashBlockSize)
        (some (hashBlockTokens h prev (h.blockTokens r start) (h.blockKeys r start mmIdx))) hashes →
      Chain h ok r start prev
        (hashBlockTokens h prev (h.blockTokens r start) (h.blockKeys r start mmIdx) :: hashes)

variable {ok' : Nat → Nat → Prop} {r : Request} {start : Nat} {prev : Option BlockHash}
  {hashes : List BlockHash}

theorem Chain.weaken (sub : ∀ s i, ok s i → ok' s i)
    (c : h.Chain ok r start prev hashes) : h.Chain ok' r start prev hashes := by
  induction c with
  | nil => exact .nil _ _
  | cons hok hfit _ ih => exact .cons (sub _ _ hok) hfit ih

theorem Chain.append {xs ys : List BlockHash} (c : h.Chain ok r start prev xs)
    (d : h.Chain ok r (start + xs.length * h.hashBlockSize) (xs.getLast?.or prev) ys) :
    h.Chain ok r start prev (xs ++ ys) := by
  induction c with
  | nil start prev => simpa using d
  | @cons start mmIdx prev hashes hok hfit _ ih =>
    refine .cons hok hfit (ih ?_)
    have e : start + h.hashBlockSize + hashes.length * h.hashBlockSize =
        start + (hashes.length + 1) * h.hashBlockSize := by
      rw [Nat.add_mul]
      omega
    rw [e]
    cases hashes with
    | nil => simpa using d
    | cons x xs => simpa [getLast?_cons] using d

theorem Chain.room (c : h.Chain ok r start prev hashes) (hs : start ≤ r.numTokens) :
    start + hashes.length * h.hashBlockSize ≤ r.numTokens := by
  induction c with
  | nil => simpa using hs
  | cons _ hfit _ ih =>
    have := ih hfit
    rw [length_cons, Nat.add_mul]
    omega

theorem slice_append_of_le {xs ys : List Nat} {start stop : Nat} (hle : stop ≤ xs.length) :
    slice (xs ++ ys) start stop = slice xs start stop := by
  simp [slice, take_append_of_le_length hle]

theorem Chain.append_tokens (c : h.Chain ok r start prev hashes) (ts : List Nat)
    (bh : List BlockHash) :
    h.Chain ok { r with allTokenIds := r.allTokenIds ++ ts, blockHashes := bh }
      start prev hashes := by
  induction c with
  | nil => exact .nil _ _
  | @cons start mmIdx prev hashes hok hfit _ ih =>
    have htok : h.blockTokens r start = h.blockTokens
        { r with allTokenIds := r.allTokenIds ++ ts, blockHashes := bh } start :=
      (slice_append_of_le hfit).symm
    have hkeys : h.blockKeys r start mmIdx = h.blockKeys
        { r with allTokenIds := r.allTokenIds ++ ts, blockHashes := bh } start mmIdx := rfl
    rw [htok, hkeys] at ih ⊢
    refine .cons hok ?_ ih
    simp only [Request.numTokens, length_append] at hfit ⊢
    omega

theorem hashLoop_chain (next : ∀ s i, ok s i → ok (s + h.hashBlockSize)
    (generateBlockHashExtraKeys h r s (s + h.hashBlockSize) i).2)
    (fuel start mmIdx : Nat) (prev : Option BlockHash) (hok : ok start mmIdx) :
    h.Chain ok r start prev (h.hashLoop r fuel start mmIdx prev) := by
  induction fuel generalizing start mmIdx prev with
  | zero => exact .nil _ _
  | succ fuel ih =>
    simp only [hashLoop]
    split
    · exact .nil _ _
    · exact .cons hok (by omega) (ih _ _ _ (next start mmIdx hok))

theorem hashLoop_length (fuel start mmIdx : Nat) (prev : Option BlockHash)
    (hf : r.numTokens ≤ start + fuel) :
    (h.hashLoop r fuel start mmIdx prev).length = (r.numTokens - start) / h.hashBlockSize := by
  have hpos := h.hashBlockSize_pos
  induction fuel generalizing start mmIdx prev with
  | zero =>
    rw [hashLoop, length_nil, Nat.sub_eq_zero_of_le (by omega), Nat.zero_div]
  | succ fuel ih =>
    simp only [hashLoop]
    split
    · rw [length_nil, Nat.div_eq_of_lt (by omega)]
    · have enough : h.hashBlockSize ≤ r.numTokens - start := by omega
      rw [length_cons, ih _ _ _ (by omega), Nat.div_eq_sub_div hpos enough, Nat.sub_sub]

/-- What the hashes of a request are at any time: a chain over all its full blocks. -/
structure Hashed (h : BlockHasher) (ok : Nat → Nat → Prop) (r : Request) : Prop where
  chain : h.Chain ok r 0 none r.blockHashes
  length : r.blockHashes.length = r.numTokens / h.hashBlockSize

theorem updateBlockHashes_hashed (chain : h.Chain ok r 0 none r.blockHashes)
    (next : ∀ s i, ok s i → ok (s + h.hashBlockSize)
    (generateBlockHashExtraKeys h r s (s + h.hashBlockSize) i).2)
    (resume : ok (r.blockHashes.length * h.hashBlockSize)
    (resumeMmIdx r (r.blockHashes.length * h.hashBlockSize)
    (r.blockHashes.length * h.hashBlockSize + h.hashBlockSize))) :
    h.Hashed ok (h.updateBlockHashes r) := by
  have hpos := h.hashBlockSize_pos
  have room : r.blockHashes.length * h.hashBlockSize ≤ r.numTokens := by
    simpa using chain.room (Nat.zero_le _)
  have total : r.blockHashes.length +
      (r.numTokens - r.blockHashes.length * h.hashBlockSize) / h.hashBlockSize =
      r.numTokens / h.hashBlockSize := by
    rw [Nat.mul_comm, Nat.sub_mul_div, Nat.add_sub_cancel']
    exact (Nat.le_div_iff_mul_le hpos).mpr room
  have rest : h.Chain ok r (r.blockHashes.length * h.hashBlockSize) r.blockHashes.getLast?
      (h.requestBlockHasher r) := by
    simp only [requestBlockHasher]
    split
    · exact .nil _ _
    · exact hashLoop_chain next _ _ _ _ resume
  have len : (h.requestBlockHasher r).length =
      (r.numTokens - r.blockHashes.length * h.hashBlockSize) / h.hashBlockSize := by
    simp only [requestBlockHasher]
    split
    · rw [length_nil, Nat.div_eq_of_lt (by omega)]
    · exact hashLoop_length _ _ _ _ (by omega)
  constructor
  · have whole : h.Chain ok r 0 none (r.blockHashes ++ h.requestBlockHasher r) :=
      chain.append (by simpa using rest)
    simpa [updateBlockHashes] using whole.append_tokens [] (r.blockHashes ++ h.requestBlockHasher r)
  · rw [updateBlockHashes, length_append, len]
    exact total

theorem Chain.unique {r r' : Request} {xs ys : List BlockHash}
    (c : h.Chain ok r start prev xs) (d : h.Chain ok' r' start prev ys)
    (len : xs.length = ys.length)
    (tokens : ∀ s, s + h.hashBlockSize ≤ r.numTokens → h.blockTokens r s = h.blockTokens r' s)
    (keys : ∀ s i j, s + h.hashBlockSize ≤ r.numTokens → ok s i → ok' s j →
    h.blockKeys r s i = h.blockKeys r' s j) : xs = ys := by
  induction c generalizing ys with
  | nil =>
    rw [length_nil, eq_comm, length_eq_zero_iff] at len
    rw [len]
  | @cons start mmIdx prev hashes hok hfit _ ih =>
    cases d with
    | nil => simp at len
    | @cons _ j _ tail hok' _ d =>
      have e : hashBlockTokens h prev (h.blockTokens r start) (h.blockKeys r start mmIdx) =
          hashBlockTokens h prev (h.blockTokens r' start) (h.blockKeys r' start j) := by
        rw [tokens start hfit, keys start mmIdx j hfit hok hok']
      rw [e] at ih ⊢
      rw [ih d (by simpa using len)]

section Injective

variable (inj : Function.Injective h.hashFunction) (fresh : ∀ t, h.hashFunction t ≠ h.noneHash)

/-- The parent that is hashed: `NONE_HASH` stands for a missing or empty one. -/
def effectiveParent (h : BlockHasher) : Option BlockHash → BlockHash
  | none => h.noneHash
  | some hash => if hash = [] then h.noneHash else hash

include inj in
theorem hashBlockTokens_inj {p p' : Option BlockHash} {ts ts' : List Nat}
    {ks ks' : Option (List ExtraKey)}
    (e : hashBlockTokens h p ts ks = hashBlockTokens h p' ts' ks') :
    h.effectiveParent p = h.effectiveParent p' ∧ ts = ts' ∧ ks = ks' := by
  have triple := inj e
  simp only [Prod.mk.injEq] at triple
  exact triple

include fresh in
theorem effectiveParent_inj {t t' : BlockHash × List Nat × Option (List ExtraKey)}
    (e : h.effectiveParent (some (h.hashFunction t)) =
    h.effectiveParent (some (h.hashFunction t'))) : h.hashFunction t = h.hashFunction t' := by
  simp only [effectiveParent] at e
  split at e <;> split at e
  · simp_all
  · exact absurd e.symm (fresh t')
  · exact absurd e (fresh t)
  · exact e

include inj fresh in
/-- Equal hashes at one place of two chains: all blocks up to it have the same
tokens and the same extra keys. -/
theorem Chain.eq_of_hash_eq {ok' : Nat → Nat → Prop} {r r' : Request} {start k : Nat}
    {prev prev' : Option BlockHash} {xs ys : List BlockHash} {x : BlockHash}
    (c : h.Chain ok r start prev xs) (d : h.Chain ok' r' start prev' ys)
    (hx : xs[k]? = some x) (hy : ys[k]? = some x) :
    h.effectiveParent prev = h.effectiveParent prev' ∧
    ∀ j ≤ k, ∃ i i', ok (start + j * h.hashBlockSize) i ∧ ok' (start + j * h.hashBlockSize) i' ∧
    h.blockTokens r (start + j * h.hashBlockSize) = h.blockTokens r' (start + j * h.hashBlockSize) ∧
    h.blockKeys r (start + j * h.hashBlockSize) i =
    h.blockKeys r' (start + j * h.hashBlockSize) i' := by
  induction k generalizing start prev prev' xs ys with
  | zero =>
    cases c with
    | nil => simp at hx
    | @cons _ i _ _ hok _ _ =>
      cases d with
      | nil => simp at hy
      | @cons _ i' _ _ hok' _ _ =>
        simp only [getElem?_cons_zero, Option.some.injEq] at hx hy
        have split := hashBlockTokens_inj inj (hx.trans hy.symm)
        refine ⟨split.1, fun j hj => ⟨i, i', ?_⟩⟩
        rw [Nat.le_zero.mp hj, Nat.zero_mul, Nat.add_zero]
        exact ⟨hok, hok', split.2⟩
  | succ k ih =>
    cases c with
    | nil => simp at hx
    | @cons _ i _ _ hok _ c =>
      cases d with
      | nil => simp at hy
      | @cons _ i' _ _ hok' _ d =>
        rw [getElem?_cons_succ] at hx hy
        have tail := ih c d hx hy
        have head := hashBlockTokens_inj inj (effectiveParent_inj fresh tail.1)
        refine ⟨head.1, fun j hj => ?_⟩
        cases j with
        | zero =>
          rw [Nat.zero_mul, Nat.add_zero]
          exact ⟨i, i', hok, hok', head.2⟩
        | succ j =>
          have e : start + (j + 1) * h.hashBlockSize =
              start + h.hashBlockSize + j * h.hashBlockSize := by
            rw [Nat.add_mul]
            omega
          rw [e]
          exact tail.2 j (by omega)

end Injective

theorem Chain.hashed_over (c : h.Chain ok r start prev hashes) {k : Nat} {x : BlockHash}
    (hx : hashes[k]? = some x) : ∃ parent tokens keys, x = hashBlockTokens h parent tokens keys ∧
    (k = 0 → parent = prev) ∧ ∀ j, k = j + 1 → ∃ y, hashes[j]? = some y ∧ parent = some y := by
  induction c generalizing k with
  | nil => simp at hx
  | @cons start mmIdx prev hashes hok hfit c ih =>
    cases k with
    | zero =>
      rw [getElem?_cons_zero, Option.some.injEq] at hx
      exact ⟨prev, _, _, hx.symm, fun _ => rfl, fun _ hj => by cases hj⟩
    | succ k =>
      rw [getElem?_cons_succ] at hx
      have ⟨parent, tokens, keys, hhash, hzero, hsucc⟩ := ih hx
      refine ⟨parent, tokens, keys, hhash, fun hk => (by cases hk), fun j hj => ?_⟩
      obtain rfl : k = j := by omega
      cases k with
      | zero => exact ⟨_, getElem?_cons_zero, hzero rfl⟩
      | succ i =>
        have ⟨y, hy, hparent⟩ := hsucc i rfl
        exact ⟨y, by rw [getElem?_cons_succ, hy], hparent⟩

/-- What the caching hash function is trusted for: no two inputs collide, and no
hash is empty or equal to `NONE_HASH`. -/
structure CollisionFree (h : BlockHasher) : Prop where
  inj : Function.Injective h.hashFunction
  fresh : ∀ t, h.hashFunction t ≠ h.noneHash
  nonempty : ∀ t, h.hashFunction t ≠ []

theorem Chain.index_eq (free : h.CollisionFree) {r r' : Request}
    {xs ys : List BlockHash} (c : h.Chain ok r 0 none xs) (d : h.Chain ok' r' 0 none ys)
    {k k' : Nat} {x : BlockHash} (hx : xs[k]? = some x) (hy : ys[k']? = some x) : k = k' := by
  have parent_eq : ∀ parent tokens keys, h.effectiveParent
      (some (hashBlockTokens h parent tokens keys)) = hashBlockTokens h parent tokens keys :=
    fun _ _ _ => if_neg (free.nonempty _)
  induction k generalizing k' x with
  | zero =>
    have ⟨parent, _, _, hhash, hzero, _⟩ := c.hashed_over hx
    have ⟨parent', _, _, hhash', _, hsucc'⟩ := d.hashed_over hy
    cases k' with
    | zero => rfl
    | succ j =>
      have same := (hashBlockTokens_inj free.inj (hhash.symm.trans hhash')).1
      have ⟨y, hyj, hparent⟩ := hsucc' j rfl
      have ⟨_, _, _, hover, _⟩ := d.hashed_over hyj
      rw [hzero rfl, hparent, hover, parent_eq] at same
      exact absurd same.symm (free.fresh _)
  | succ i ih =>
    have ⟨parent, _, _, hhash, _, hsucc⟩ := c.hashed_over hx
    have ⟨parent', _, _, hhash', hzero', hsucc'⟩ := d.hashed_over hy
    have same := (hashBlockTokens_inj free.inj (hhash.symm.trans hhash')).1
    have ⟨z, hz, hparent⟩ := hsucc i rfl
    have ⟨_, _, _, hover, _⟩ := c.hashed_over hz
    rw [hparent, hover, parent_eq] at same
    cases k' with
    | zero =>
      rw [hzero' rfl] at same
      exact absurd same (free.fresh _)
    | succ j =>
      have ⟨y, hyj, hparent'⟩ := hsucc' j rfl
      have ⟨_, _, _, hover', _⟩ := d.hashed_over hyj
      rw [hparent', hover', parent_eq] at same
      have hzy : z = y := by rw [hover, hover', same]
      rw [ih hz (hzy ▸ hyj)]

end BlockHasher

end VllmAmpere
