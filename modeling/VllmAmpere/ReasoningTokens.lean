import VllmAmpere.ReasoningCuts

/-! The tokens that are attributed to reasoning: they depend on the cut where a zero-width
token stands behind a delimiter, or behind a visible token at a place where text is held
back. -/

open List

namespace VllmAmpere.OutputText

open TextStream (Bytes DecodedText TokenAttribution TokenAnchor)

def NoZeroWidthAt (n : Nat) (output : List Piece) : Prop :=
  ∀ a ∈ (decoded output).attributions, a.anchor ≠ .zeroWidth n

section zeroWidth

variable {xs ys : List Piece} {n p : Nat}

theorem zeroWidth_mem (h : (drain 0 xs).1 ≠ []) (k : Nat) :
    ∃ tokenId, ⟨tokenId, .zeroWidth k⟩ ∈ anchors k xs := by
  induction xs with
  | nil => exact absurd rfl h
  | cons piece rest ih =>
    cases piece with
    | byte b => exact absurd rfl h
    | token tokenId zeroWidth =>
      cases zeroWidth with
      | true => exact ⟨tokenId, mem_cons_self⟩
      | false =>
        rw [drain] at h
        obtain ⟨id, hid⟩ := ih h
        exact ⟨id, mem_cons_of_mem _ hid⟩

theorem NoZeroWidthAt.late (h : NoZeroWidthAt (bytes xs).length (xs ++ ys)) :
    (drain 0 ys).1 = [] := by
  by_contra hne
  obtain ⟨id, hid⟩ := zeroWidth_mem hne (bytes xs).length
  refine h ⟨id, .zeroWidth (bytes xs).length⟩ ?_ rfl
  show _ ∈ anchors 0 (xs ++ ys)
  rw [anchors_append, Nat.zero_add]
  exact mem_append_right _ hid

theorem le_of_mem_anchors {k : Nat} {a : TokenAttribution} (h : a ∈ anchors k xs) :
    k ≤ a.anchor.byteOffset := by
  induction xs generalizing k with
  | nil => cases h
  | cons piece rest ih =>
    cases piece with
    | byte b => exact Nat.le_of_succ_le (ih h)
    | token tokenId zeroWidth =>
      rcases mem_cons.mp h with rfl | h
      · cases zeroWidth <;> exact Nat.le_refl _
      · exact ih h

theorem drain_zero_of_mem {k : Nat} {tokenId : UInt32}
    (h : ⟨tokenId, .zeroWidth k⟩ ∈ anchors k xs) : (drain 0 xs).1 ≠ [] := by
  induction xs with
  | nil => cases h
  | cons piece rest ih =>
    cases piece with
    | byte b =>
      have hrest : ⟨tokenId, .zeroWidth k⟩ ∈ anchors (k + 1) rest := h
      have hle : k + 1 ≤ k := le_of_mem_anchors hrest
      exact absurd hle (Nat.not_succ_le_self k)
    | token id zeroWidth =>
      cases zeroWidth with
      | true => exact cons_ne_nil _ _
      | false =>
        rw [drain]
        refine ih ?_
        rcases mem_cons.mp h with h | h
        · cases h
        · exact h

theorem exists_cut {k : Nat} {tokenId : UInt32} (h : ⟨tokenId, .zeroWidth (k + n)⟩ ∈ anchors k xs) :
    ∃ first rest, xs = first ++ rest ∧ Closed first ∧ (bytes first).length = n ∧
    (drain 0 rest).1 ≠ [] := by
  induction xs generalizing k n with
  | nil => cases h
  | cons piece rest ih =>
    cases n with
    | zero => exact ⟨[], piece :: rest, rfl, trivial, rfl, drain_zero_of_mem h⟩
    | succ n =>
      cases piece with
      | byte b =>
        obtain ⟨first, more, rfl, hclosed, hlen, hmore⟩ := ih (k := k + 1) (n := n) (by
          rw [Nat.add_right_comm]
          exact h)
        exact ⟨.byte b :: first, more, rfl, hclosed, congrArg Nat.succ hlen, hmore⟩
      | token id zeroWidth =>
        rcases mem_cons.mp h with h | h
        · cases zeroWidth <;> simp at h
        · obtain ⟨first, more, rfl, hclosed, hlen, hmore⟩ := ih h
          refine ⟨.token id zeroWidth :: first, more, rfl, ?_, hlen, hmore⟩
          cases zeroWidth with
          | true => exact hclosed
          | false => exact ⟨length_pos_iff.mp (hlen ▸ Nat.succ_pos n), hclosed⟩

theorem NoZeroWidthAt.of_drain (h : NoZeroWidthAt n (drain p xs).2) : NoZeroWidthAt (p + n) xs ∨
    n = 0 := by
  rcases Nat.eq_zero_or_pos n with hzero | hpos
  · exact .inr hzero
  refine .inl fun a ha hanchor => ?_
  have hrest := (anchors_drain xs p 0).2
  rw [Nat.zero_add] at hrest
  refine h (a.offsetBy (-p)) ?_ ?_
  · show _ ∈ anchors 0 (drain p xs).2
    rw [← hrest]
    refine mem_map_of_mem (mem_filter.mpr ⟨ha, ?_⟩)
    rw [TokenAttribution.inPrefix, hanchor]
    simpa [Nat.pos_iff_ne_zero] using hpos
  · have hoffset : (((p + n : Nat) : Int) + -(p : Int)).toNat = n := by omega
    rw [TokenAttribution.offsetBy, hanchor]
    exact congrArg TokenAnchor.zeroWidth hoffset

theorem NoZeroWidthAt.drain (h : NoZeroWidthAt (p + n) xs) (hpos : 0 < n) :
    NoZeroWidthAt n (drain p xs).2 := by
  intro a ha hanchor
  have hrest := (anchors_drain xs p 0).2
  rw [Nat.zero_add] at hrest
  change a ∈ anchors 0 (OutputText.drain p xs).2 at ha
  rw [← hrest] at ha
  obtain ⟨b, hb, rfl⟩ := mem_map.mp ha
  obtain ⟨hmem, -⟩ := mem_filter.mp hb
  refine h b hmem ?_
  obtain ⟨id, anchor⟩ := b
  cases anchor with
  | visible k => cases hanchor
  | zeroWidth k =>
    have hk : ((k : Int) + -(p : Int)).toNat = n := TokenAnchor.zeroWidth.inj hanchor
    show TokenAnchor.zeroWidth k = .zeroWidth (p + n)
    congr 1
    omega

end zeroWidth

namespace ReasoningDelimiters

variable (d : ReasoningDelimiters)

/-- Where the reasoning that an output begins with is given out while the text behind is held
back, unless it ends there, the tokens of that place are in order. -/
def Quiet (pending : Bytes) (output : List Piece) : Prop :=
  ∀ c ≤ (bytes output).length, StartsChar ((bytes output).drop c) →
    Passes false pending ((bytes output).take c) →
    d.boundary true ((bytes output).take c) = none →
    c - d.keepLen true ((bytes output).take c) < c →
    c - d.keepLen true ((bytes output).take c) ≠ d.bodyEnd true (bytes output) →
    OrderedAt (c - d.keepLen true ((bytes output).take c)) output

/-- The reasoning of an output is the same for every cut: no zero-width token stands where a
delimiter ends and reasoning begins, and the reasoning is quiet. -/
inductive Settled : Bool → Bytes → List Piece → Prop
  | after {m : Bool} {pending : Bytes} {output : List Piece} (ne : pending ≠ [])
      (occurs : pending <+: bytes output)
      (clean : m = true → StartsChar ((bytes output).drop pending.length) →
        NoZeroWidthAt pending.length output)
      (rest : Settled m [] (drain pending.length output).2) : Settled m pending output
  | waits {m : Bool} {pending : Bytes} {output : List Piece} (ne : pending ≠ [])
      (mismatch : ¬pending <+: bytes output) (short : bytes output <+: pending) :
      Settled m pending output
  | boundary {m : Bool} {pending : Bytes} {output : List Piece} {be : Nat × Nat}
      (passes : Passes false pending (bytes output))
      (found : d.boundary m (bytes output) = some be) (quiet : m = true → d.Quiet pending output)
      (clean : m = false →
        ¬(d.after true ≠ [] ∧ d.after true <+: (bytes output).drop be.2) →
        StartsChar ((bytes output).drop be.2) → NoZeroWidthAt be.2 output)
      (rest : Settled (!m) (d.after !m) (atBoundary be output).2) : Settled m pending output
  | last {m : Bool} {pending : Bytes} {output : List Piece}
      (passes : Passes false pending (bytes output))
      (none : d.boundary m (bytes output) = none) (quiet : m = true → d.Quiet pending output) :
      Settled m pending output

variable {d} {m : Bool} {pending : Bytes} {first rest output : List Piece}

theorem drain_late_snd (rest : List Piece) (n : Nat) :
    (drain n (drain 0 rest).2).2 = (drain n rest).2 := by
  have h := drain_drain_snd rest (Nat.zero_le n)
  rwa [Nat.sub_zero] at h

theorem noZeroWidthAt_late {n : Nat} (h : NoZeroWidthAt n (drain 0 rest).2) (hpos : 0 < n) :
    NoZeroWidthAt n rest := by
  have hor := h.of_drain
  rw [Nat.zero_add] at hor
  exact hor.resolve_right (Nat.ne_of_gt hpos)

/-- Zero-width tokens that come late change nothing for content, nor where they are consumed
with the text that follows a delimiter. -/
theorem Settled.late (h : d.Settled m pending (drain 0 rest).2)
    (hm : m = false ∨ pending ≠ [] ∧ pending <+: bytes rest) : d.Settled m pending rest := by
  have hbytes := bytes_drain_zero rest
  cases h with
  | after ne occurs clean next =>
    rw [drain_late_snd] at next
    rw [hbytes] at occurs clean
    exact .after ne occurs
      (fun hm hcut => noZeroWidthAt_late (clean hm hcut) (length_pos_iff.mpr ne)) next
  | waits ne mismatch short =>
    rw [hbytes] at mismatch short
    exact .waits ne mismatch short
  | @boundary _ _ _ be passes found quiet clean next =>
    rw [hbytes] at passes found clean
    have hcontent : m = false := hm.resolve_right fun hq =>
      passes.elim hq.1 fun hmismatch => hmismatch.1 hq.2
    have hlate : (atBoundary be (drain 0 rest).2).2 = (atBoundary be rest).2 := by
      unfold atBoundary
      rw [drain_late_snd]
    rw [hlate] at next
    refine .boundary passes found (fun hm => absurd (hm.symm.trans hcontent) (by decide))
      (fun hm hq hcut => noZeroWidthAt_late (clean hm hq hcut) ?_) next
    exact Nat.zero_lt_of_lt (boundary_bounds (b := be.1) (e := be.2) found).1
  | last passes none quiet =>
    rw [hbytes] at passes none
    have hcontent : m = false := hm.resolve_right fun hq =>
      passes.elim hq.1 fun hmismatch => hmismatch.1 hq.2
    exact .last passes none fun hm => absurd (hm.symm.trans hcontent) (by decide)

theorem bytes_held {p : Nat} (hp : p ≤ (bytes first).length) :
    bytes ((drain p first).2 ++ rest) = (bytes (first ++ rest)).drop p := by
  rw [bytes_append, bytes_append, (bytes_drain _ _).2, drop_append_of_le_length hp]

theorem orderedAt_held {p n : Nat} (closed : Closed first) (hp : p ≤ (bytes first).length)
    (h : OrderedAt (p + n) (first ++ rest)) : OrderedAt n ((drain p first).2 ++ rest) := by
  rcases Nat.lt_or_eq_of_le hp with hlt | rfl
  · have hsplit := drain_append_of_lt first rest p hlt
    have hsnd : (drain p first).2 ++ rest = (drain p (first ++ rest)).2 :=
      (congrArg Prod.snd hsplit).symm
    rw [hsnd]
    exact h.drain
  · rw [drain_length _ closed, nil_append]
    have hsplit : drain ((bytes first).length + n) (first ++ rest) =
        (first ++ (drain n rest).1, (drain n rest).2) := by
      cases n with
      | zero => exact drain_append_of_eq _ _ closed
      | succ n =>
        rw [drain_append_of_gt _ _ _ (Nat.lt_add_of_pos_right (Nat.succ_pos n)),
          Nat.add_sub_cancel_left]
    rw [OrderedAt, hsplit, append_assoc, append_cancel_left_eq] at h
    exact h

theorem Quiet.held (quiet : d.Quiet pending (first ++ rest)) (closed : Closed first)
    (chars : StartsChar (bytes rest)) (hp : Passes false pending (bytes first))
    (hb : d.boundary true (bytes first) = none) {p : Nat}
    (hpdef : p = (bytes first).length - d.keepLen true (bytes first)) :
    d.Quiet [] ((drain p first).2 ++ rest) := by
  have hple : p ≤ (bytes first).length := hpdef ▸ Nat.sub_le _ _
  have hpb : p ≤ d.bodyEnd true (bytes (first ++ rest)) := by
    rw [hpdef, bytes_append]
    exact le_bodyEnd hb chars
  intro c hc hstart _ hnone hlt hne
  rw [bytes_held hple] at hc hstart hnone hlt hne ⊢
  rw [length_drop] at hc
  rw [drop_drop] at hstart
  rw [take_drop] at hnone hlt hne ⊢
  have hkeep : d.keepLen true (bytes first) ≤ (bytes first).length := keepLen_le
  by_cases hinside : p + c ≤ (bytes first).length
  · -- the cut is inside of what is held back, so all before it is held back
    have hfirst : (bytes (first ++ rest)).take (p + c) = (bytes first).take (p + c) := by
      rw [bytes_append, take_append_of_le_length hinside]
    have hmore : StartsChar ((bytes first).drop (p + c)) := by
      rw [bytes_append, drop_append_of_le_length hinside] at hstart
      intro b hb
      refine hstart b ?_
      rw [head?_append, Option.mem_def.mp hb]
      rfl
    have hsplit : ((bytes first).take (p + c)).drop p ++ (bytes first).drop (p + c) =
        (bytes first).drop p := by
      rw [← take_drop, ← drop_drop, take_append_drop]
    have hheld : d.keepLen true (((bytes first).take (p + c)).drop p) =
        (((bytes first).take (p + c)).drop p).length := by
      refine keepLen_take ?_ hmore
      rw [hsplit, keepLen_drop (Nat.le_of_eq hpdef), length_drop]
      omega
    rw [hfirst, hheld, length_drop, length_take_of_le hinside,
      Nat.add_sub_cancel_left, Nat.sub_self]
    have hplt : p < (bytes first).length := by omega
    have hsnd : (drain p first).2 ++ rest = (drain p (first ++ rest)).2 :=
      (congrArg Prod.snd (drain_append_of_lt first rest p hplt)).symm
    rw [OrderedAt, hsnd, drain_zero_drain, nil_append]
  · have hover : (bytes first).length ≤ p + c := by omega
    have htake : (bytes (first ++ rest)).take (p + c) =
        bytes first ++ (bytes rest).take (p + c - (bytes first).length) := by
      rw [bytes_append, take_append, take_of_length_le hover]
    have hmore : StartsChar ((bytes rest).take (p + c - (bytes first).length)) := by
      intro b hb
      rw [head?_take, if_neg (by omega)] at hb
      exact chars b hb
    have hlen : ((bytes (first ++ rest)).take (p + c)).length = p + c := by
      rw [length_take_of_le]
      omega
    have hstartle : p ≤ p + c - d.keepLen true ((bytes (first ++ rest)).take (p + c)) := by
      have happend : (bytes first).length - d.keepLen true (bytes first) ≤ _ :=
        keepLen_append hmore
      rw [← htake, hlen] at happend
      omega
    have hsame : d.keepLen true (((bytes (first ++ rest)).take (p + c)).drop p) =
        d.keepLen true ((bytes (first ++ rest)).take (p + c)) :=
      keepLen_drop (by rw [hlen]; exact hstartle)
    rw [hsame] at hlt hne ⊢
    have hend := bodyEnd_drop hpb
    rw [hend] at hne
    have hall : d.boundary true ((bytes (first ++ rest)).take (p + c)) = none := by
      by_contra hsome
      obtain ⟨be, hbe⟩ := Option.ne_none_iff_exists'.mp hsome
      have hbody := (boundary_held (b := be.1) (e := be.2) hb hmore (htake ▸ hbe)).1
      rw [boundary_drop (b := be.1) (e := be.2) hbe (hpdef ▸ hbody)] at hnone
      cases hnone
    have hplace : p + c - d.keepLen true ((bytes (first ++ rest)).take (p + c)) =
        p + (c - d.keepLen true ((bytes (first ++ rest)).take (p + c))) := by omega
    have hordered := quiet (p + c) (by omega) hstart (by rw [htake]; exact hp.append _) hall
      (by omega) (by omega)
    rw [hplace] at hordered
    exact orderedAt_held closed hple hordered

theorem noZeroWidthAt_held {p n : Nat} (closed : Closed first) (hp : p ≤ (bytes first).length)
    (hpos : 0 < n) (h : NoZeroWidthAt (p + n) (first ++ rest)) :
    NoZeroWidthAt n ((drain p first).2 ++ rest) := by
  rcases Nat.lt_or_eq_of_le hp with hlt | rfl
  · have hsnd : (drain p first).2 ++ rest = (drain p (first ++ rest)).2 :=
      (congrArg Prod.snd (drain_append_of_lt first rest p hlt)).symm
    rw [hsnd]
    exact h.drain hpos
  · rw [drain_length _ closed, nil_append]
    refine noZeroWidthAt_late ?_ hpos
    have hsnd := congrArg Prod.snd (drain_append_of_eq first rest closed)
    rw [← show (drain (bytes first).length (first ++ rest)).2 = (drain 0 rest).2 from hsnd]
    exact h.drain hpos

theorem piecesOf_nil (n m : Bool) : piecesOf n m [] = [] := by
  unfold piecesOf
  split <;> rfl

theorem joins_of_quiet (quiet : m = true → d.Quiet pending (first ++ rest))
    (closed : Closed first) (chunk : IsChunk rest) (hp : Passes false pending (bytes first))
    (hb : d.boundary m (bytes first) = none) : d.Joins (piecesOf true) m pending first rest := by
  refine (joins_rest closed chunk.1 chunk.2 hp hb rfl rfl).mpr ?_
  cases m with
  | false => rfl
  | true =>
    have hle := le_bodyEnd hb chunk.2
    rw [← bytes_append] at hle
    refine (resume_fst closed rest (Nat.sub_le _ _) hle).mpr fun hlt hne => ?_
    have htake : (bytes (first ++ rest)).take (bytes first).length = bytes first := by
      rw [bytes_append, take_left]
    have hdrop : (bytes (first ++ rest)).drop (bytes first).length = bytes rest := by
      rw [bytes_append, drop_left]
    have hordered := quiet rfl (bytes first).length
      (by rw [bytes_append, length_append]; omega) (hdrop.symm ▸ chunk.2)
      (htake.symm ▸ hp) (htake.symm ▸ hb)
    rw [htake] at hordered
    exact (orderedAt_append rest hlt).mp (hordered hlt hne)

/-- A settled output is joined at every cut, and what is left of it at a cut is settled. -/
theorem Settled.joins (h : d.Settled m pending output) (first rest : List Piece)
    (hcut : output = first ++ rest) (closed : Closed first) (chunk : IsChunk rest) :
    d.Joins (piecesOf true) m pending first rest ∧
    d.Settled (d.scan false m pending first).2.inReasoning
    (d.scan false m pending first).2.pendingAfter
    ((d.scan false m pending first).2.buffer ++ rest) := by
  obtain ⟨closedRest, chars⟩ := chunk
  have whole := h
  induction h generalizing first with
  | @after m pending output ne occurs clean settled ih =>
    subst hcut
    rcases firstPart_cases pending (bytes first) with ⟨-, hq⟩ | ⟨-, hq, hwaits⟩ | hp
    · rcases Nat.lt_or_eq_of_le hq.length_le with hlt | heq
      · rw [drain_append_of_lt _ _ _ hlt] at ih settled
        obtain ⟨hjoin, hnext⟩ := ih _ rfl (closed.drain_snd _) settled
        rw [joins_after ne hq hlt, scan_after ne hq]
        exact ⟨hjoin, hnext⟩
      · rw [heq, drain_append_of_eq _ _ closed] at settled
        rw [joins_after_end (piecesOf_nil true) closed ne hq heq, late_pieces _ _ closedRest,
          scan_after ne hq, heq, drain_length _ closed, scan_empty]
        have hdrop : (bytes (first ++ rest)).drop (bytes first).length = bytes rest := by
          rw [bytes_append, drop_left]
        rw [heq, hdrop] at clean
        refine ⟨fun hm _ => (clean hm chars).late, ?_⟩
        rw [nil_append]
        cases m with
        | false => exact settled.late (.inl rfl)
        | true =>
          have hnone := (clean rfl chars).late
          have hordered := orderedAt_zero_of_fst hnone
          rw [OrderedAt, hnone, nil_append] at hordered
          rwa [hordered] at settled
    · rw [scan_waits ne hq hwaits]
      exact ⟨joins_waits ne hq hwaits, whole⟩
    · have hpass : Passes false pending (bytes first ++ bytes rest) := hp.append _
      rw [bytes_append] at occurs
      exact absurd occurs (hpass.resolve_left ne).1
  | waits ne mismatch short =>
    subst hcut
    rw [bytes_append] at short mismatch
    have hwaits : bytes first <+: _ := (prefix_append _ _).trans short
    have hq : ¬_ <+: bytes first := fun h => mismatch (h.trans (prefix_append _ _))
    rw [scan_waits ne hq hwaits]
    exact ⟨joins_waits ne hq hwaits, whole⟩
  | @boundary m pending output be passes found quiet clean settled ih =>
    subst hcut
    obtain ⟨hbe, hle⟩ := boundary_bounds (b := be.1) (e := be.2) found
    rcases firstPart_cases pending (bytes first) with ⟨hne, hq⟩ | ⟨hne, hq, hwaits⟩ | hp
    · exact absurd (prefix_bytes hq rest) (passes.resolve_left hne).1
    · rw [scan_waits hne hq hwaits]
      exact ⟨joins_waits hne hq hwaits, whole⟩
    · cases hb : d.boundary m (bytes first) with
      | some be' =>
        have hsame : be' = be := by
          have happend := boundary_append (b := be'.1) (e := be'.2) hb (bytes rest)
          rw [← bytes_append, found, Option.some.injEq] at happend
          exact happend.symm
        subst hsame
        have hinside := (boundary_bounds (b := be'.1) (e := be'.2) hb).2
        rw [scan_boundary hp hb]
        rcases Nat.lt_or_eq_of_le hinside with hlt | heq
        · have hat := (drain_atBoundary_of_lt rest hbe hlt).2
          rw [hat] at ih settled
          obtain ⟨hjoin, hnext⟩ := ih _ rfl ((closed.drain_snd _).drain_snd _) settled
          exact ⟨(joins_boundary hp hb hlt).mpr hjoin, hnext⟩
        · obtain ⟨-, hsnd, hnil⟩ := drain_atBoundary_of_eq rest closed hbe heq
          have hdrop : (bytes (first ++ rest)).drop be'.2 = bytes rest := by
            rw [heq, bytes_append, drop_left]
          rw [hsnd] at settled
          rw [joins_boundary_end (piecesOf_nil true) closed hp hb heq, late_pieces _ _ closedRest,
            hnil, scan_empty]
          rw [hdrop, heq] at clean
          have hlate : (!m) = true → ¬(d.after (!m) ≠ [] ∧ d.after (!m) <+: bytes rest) →
              (drain 0 rest).1 = [] := by
            intro hm hnot
            cases m with
            | true => cases hm
            | false => exact (clean rfl hnot chars).late
          refine ⟨hlate, ?_⟩
          rw [nil_append]
          by_cases hmode : (!m) = false ∨ d.after (!m) ≠ [] ∧ d.after (!m) <+: bytes rest
          · exact settled.late hmode
          · rw [not_or] at hmode
            have hnone := hlate (by simpa using hmode.1) hmode.2
            have hordered := orderedAt_zero_of_fst hnone
            rw [OrderedAt, hnone, nil_append] at hordered
            rwa [hordered] at settled
      | none =>
        have hpb := (boundary_held (b := be.1) (e := be.2) hb chars (bytes_append first rest ▸ found)).1
        refine ⟨joins_of_quiet quiet closed ⟨closedRest, chars⟩ hp hb, ?_⟩
        rw [scan_rest hp hb, if_neg Bool.false_ne_true]
        dsimp only
        have hpfirst : (bytes first).length - d.keepLen m (bytes first) ≤ (bytes first).length :=
          Nat.sub_le _ _
        generalize hpdef : (bytes first).length - d.keepLen m (bytes first) = p at *
        have hbytes : bytes ((drain p first).2 ++ rest) = (bytes (first ++ rest)).drop p :=
          bytes_held hpfirst
        have hfound : d.boundary m (bytes ((drain p first).2 ++ rest)) =
            some (be.1 - p, be.2 - p) := by
          rw [hbytes]
          exact boundary_drop found hpb
        have hat : (atBoundary (be.1 - p, be.2 - p) ((drain p first).2 ++ rest)).2 =
            (atBoundary be (first ++ rest)).2 := by
          unfold atBoundary
          dsimp only
          rw [resume_snd closed rest hpfirst hpb, show be.2 - p - (be.1 - p) = be.2 - be.1 by omega]
        refine .boundary (.inl rfl) hfound (fun hm => ?_) (fun hm hnot hcut => ?_)
          (hat.symm ▸ settled)
        · subst hm
          exact (quiet rfl).held closed chars hp hb hpdef.symm
        · rw [hbytes, drop_drop, Nat.add_sub_cancel' (by omega)] at hnot hcut
          refine noZeroWidthAt_held closed hpfirst (by omega) ?_
          rw [Nat.add_sub_cancel' (by omega)]
          exact clean hm hnot hcut
  | @last m pending output passes none quiet =>
    subst hcut
    rcases firstPart_cases pending (bytes first) with ⟨hne, hq⟩ | ⟨hne, hq, hwaits⟩ | hp
    · exact absurd (prefix_bytes hq rest) (passes.resolve_left hne).1
    · rw [scan_waits hne hq hwaits]
      exact ⟨joins_waits hne hq hwaits, whole⟩
    · have hb : d.boundary m (bytes first) = .none := by
        by_contra hsome
        obtain ⟨be, hbe⟩ := Option.ne_none_iff_exists'.mp hsome
        have happend := boundary_append (b := be.1) (e := be.2) hbe (bytes rest)
        rw [← bytes_append, none] at happend
        cases happend
      refine ⟨joins_of_quiet quiet closed ⟨closedRest, chars⟩ hp hb, ?_⟩
      rw [scan_rest hp hb, if_neg Bool.false_ne_true]
      dsimp only
      refine .last (.inl rfl) ?_ fun hm => ?_
      · rw [bytes_held (Nat.sub_le _ _)]
        exact boundary_drop_none none _
      · subst hm
        exact (quiet rfl).held closed chars hp hb rfl

theorem joins_nil (m : Bool) (pending : Bytes) (rest : List Piece) :
    d.Joins (piecesOf true) m pending [] rest := by
  obtain ⟨hnone, hstate⟩ := scan_nil (d := d) pending (piecesOf true)
    (piecesOf_nil true m)
  unfold Joins
  rw [view_append, hnone, hstate]
  rfl

theorem joins_tail {m' : Bool} {pending' : Bytes} {tail : List Piece}
    (ordered : drain 0 tail = ([], tail))
    (cuts : ∀ first rest, tail = first ++ rest → Closed first → bytes first ≠ [] →
    IsChunk rest → d.Joins (piecesOf true) m' pending' first rest)
    (first rest : List Piece) (hcut : tail = first ++ rest) (hclosed : Closed first)
    (chunk : IsChunk rest) : d.Joins (piecesOf true) m' pending' first rest := by
  by_cases hne : bytes first = []
  · -- only zero-width tokens have no text behind them, and none come first
    have hnil : first = [] := by
      cases first with
      | nil => rfl
      | cons piece more =>
        cases piece with
        | byte b => cases hne
        | token tokenId zeroWidth =>
          cases zeroWidth with
          | true =>
            rw [hcut, cons_append, drain] at ordered
            cases (Prod.mk.inj ordered).1
          | false => exact absurd hne hclosed.1
    rw [hnil]
    exact joins_nil m' pending' rest
  · exact cuts first rest hcut hclosed hne chunk

theorem passes_of_boundary {finishing : Bool} (apart : ∀ m, d.boundary m pending = none)
    (hp : Passes finishing pending (bytes (first ++ rest))) {be : Nat × Nat}
    (hb : d.boundary m (bytes first) = some be) : Passes false pending (bytes first) := by
  by_cases hne : pending = []
  · exact .inl hne
  · refine .inr ⟨fun h => (hp.resolve_left hne).1 (prefix_bytes h rest), .inr fun h => ?_⟩
    obtain ⟨more, rfl⟩ := h
    have happend := boundary_append (b := be.1) (e := be.2) hb more
    rw [apart m] at happend
    cases happend

theorem settled_of_joins (d : ReasoningDelimiters) (m : Bool) (pending : Bytes)
    (apart : ∀ m, d.boundary m pending = none) {output : List Piece} (closed : Closed output)
    (joins : ∀ first rest, output = first ++ rest → Closed first → IsChunk rest →
    d.Joins (piecesOf true) m pending first rest) : d.Settled m pending output := by
  induction hlen : (bytes output).length using Nat.strong_induction_on
    generalizing m pending output with
  | _ len ih =>
    -- a zero-width token where a delimiter ends can be cut off from it
    have hclean : ∀ {n : Nat}, StartsChar ((bytes output).drop n) →
        (∀ first rest, output = first ++ rest → Closed first → (bytes first).length = n →
          IsChunk rest → (drain 0 rest).1 = []) → NoZeroWidthAt n output := by
      intro n hchars hcuts a ha hanchor
      obtain ⟨id, anchor⟩ := a
      obtain rfl : anchor = .zeroWidth n := hanchor
      have hmem : ⟨id, .zeroWidth (0 + n)⟩ ∈ anchors 0 output := by
        rw [Nat.zero_add]
        exact ha
      obtain ⟨first, rest, hcut, hclosed, hfirst, hrest⟩ := exists_cut hmem
      refine hrest (hcuts first rest hcut hclosed hfirst ⟨(hcut ▸ closed).of_append, ?_⟩)
      rw [hcut, bytes_append, ← hfirst, drop_left] at hchars
      exact hchars
    -- a cut inside of reasoning
    have hquiet : Passes false pending (bytes output) → m = true → d.Quiet pending output := by
      rintro - rfl c hc hchars hp hb hlt hne
      obtain ⟨first, rest, rfl, hclosed, hfirst⟩ := exists_split hc
      rw [bytes_append, ← hfirst, take_left] at hp hb hlt hne ⊢
      rw [bytes_append, ← hfirst, drop_left] at hchars
      have closedRest := closed.of_append
      have hjoin := joins first rest rfl hclosed ⟨closedRest, hchars⟩
      rw [joins_rest hclosed closedRest hchars hp hb rfl rfl] at hjoin
      have hle := le_bodyEnd hb hchars
      rw [← bytes_append] at hle hne
      have hordered := (resume_fst hclosed rest (Nat.sub_le _ _) hle).mp hjoin hlt hne
      exact (orderedAt_append rest hlt).mpr hordered
    rcases firstPart_cases pending (bytes output) with ⟨hne, hq⟩ | ⟨hne, hq, hwaits⟩ | hp
    · have hpos := length_pos_iff.mpr hne
      refine .after hne hq (fun hm hchars => hclean hchars ?_) (ih _ ?_ m []
        (fun n => boundary_suffix_after true nil_suffix) (closed.drain_snd _) ?_ rfl)
      · intro first rest hcut hclosed hfirst hchunk
        have hqfirst : pending <+: bytes first := by
          rw [hcut, bytes_append] at hq
          exact prefix_of_prefix_length_le hq (prefix_append _ _) (Nat.le_of_eq hfirst.symm)
        have hjoin := joins first rest hcut hclosed hchunk
        rw [joins_after_end (piecesOf_nil true) hclosed hne hqfirst hfirst.symm,
          late_pieces _ _ hchunk.1] at hjoin
        exact hjoin hm (by simp)
      · have hle := hq.length_le
        rw [(bytes_drain _ _).2, length_drop]
        omega
      · refine joins_tail (drain_zero_drain _ _) ?_
        intro first rest hcut hclosed hbytes hchunk
        obtain ⟨whole, rfl, hwhole, hclosedWhole⟩ := cut_drain output pending.length hcut hbytes
        have hlt : pending.length < (bytes whole).length := by
          rw [← hwhole, (bytes_drain _ _).2] at hbytes
          exact length_pos_iff.mpr hbytes |> fun h => by
            rw [length_drop] at h
            omega
        have hqwhole : pending <+: bytes whole := by
          rw [bytes_append] at hq
          exact prefix_of_prefix_length_le hq (prefix_append _ _) (Nat.le_of_lt hlt)
        have hjoin := joins whole rest rfl (hclosedWhole hclosed) hchunk
        rw [joins_after hne hqwhole hlt, hwhole] at hjoin
        exact hjoin
    · exact .waits hne hq hwaits
    · cases hb : d.boundary m (bytes output) with
      | none => exact .last hp hb (hquiet hp)
      | some be =>
        obtain ⟨hbe, hle⟩ := boundary_bounds (b := be.1) (e := be.2) hb
        refine .boundary hp hb (hquiet hp) (fun hm hnot hchars => hclean hchars ?_) (ih _ ?_ (!m) _
          (fun n => boundary_suffix_after (!m) (suffix_refl _))
          ((closed.drain_snd _).drain_snd _) ?_ rfl)
        · intro first rest hcut hclosed hfirst hchunk
          rw [hcut] at hp
          rw [hcut, bytes_append] at hb
          have hbfirst := boundary_of_append (b := be.1) (e := be.2) hb (Nat.le_of_eq hfirst.symm)
          have hpass := passes_of_boundary apart hp hbfirst
          have hjoin := joins first rest hcut hclosed hchunk
          rw [joins_boundary_end (piecesOf_nil true) hclosed hpass hbfirst hfirst.symm,
            late_pieces _ _ hchunk.1] at hjoin
          subst hm
          refine hjoin rfl ?_
          rw [hcut, bytes_append, ← hfirst, drop_left] at hnot
          exact hnot
        · rw [bytes_atBoundary _ _ (Nat.le_of_lt hbe), length_drop]
          omega
        · refine joins_tail (drain_zero_drain _ _) ?_
          intro first rest hcut hclosed hbytes hchunk
          obtain ⟨middle, hmiddle, hfirst, hclosedMiddle⟩ := cut_drain _ _ hcut hbytes
          have hbytesMiddle : bytes middle ≠ [] := by
            intro hnil
            rw [← hfirst, (bytes_drain _ _).2, hnil] at hbytes
            simp at hbytes
          obtain ⟨whole, rfl, hwhole, hclosedWhole⟩ := cut_drain _ _ hmiddle hbytesMiddle
          have hat : (atBoundary be whole).2 = first := by
            unfold atBoundary
            rw [hwhole, hfirst]
          have hlt : be.2 < (bytes whole).length := by
            rw [← hat, bytes_atBoundary _ _ (Nat.le_of_lt hbe)] at hbytes
            have hpos := length_pos_iff.mpr hbytes
            rw [length_drop] at hpos
            omega
          have hb' := hb
          rw [bytes_append] at hb'
          have hbwhole := boundary_of_append (b := be.1) (e := be.2) hb' (Nat.le_of_lt hlt)
          have hpass := passes_of_boundary apart hp hbwhole
          have hjoin := joins whole rest rfl (hclosedWhole (hclosedMiddle hclosed)) hchunk
          rw [joins_boundary hpass hbwhole hlt, hat] at hjoin
          exact hjoin

end ReasoningDelimiters

theorem decoded_injective : Function.Injective decoded := by
  suffices h : ∀ (xs ys : List Piece) (k : Nat), bytes xs = bytes ys →
      anchors k xs = anchors k ys → xs = ys by
    intro xs ys hsame
    exact h xs ys 0 (congrArg DecodedText.text hsame) (congrArg DecodedText.attributions hsame)
  intro xs
  induction xs with
  | nil =>
    intro ys k hbytes hanchors
    cases ys with
    | nil => rfl
    | cons piece rest => cases piece <;> simp [bytes, anchors] at hbytes hanchors
  | cons piece rest ih =>
    -- a byte moves all the tokens behind it on
    have hmoved : ∀ {k : Nat} {a : TokenAttribution} {more : List TokenAttribution}
        {pieces : List Piece}, anchors (k + 1) pieces = a :: more → a.anchor.byteOffset ≠ k := by
      intro k a more pieces hanchors
      have hmem : a ∈ anchors (k + 1) pieces := hanchors ▸ mem_cons_self
      exact Nat.ne_of_gt (le_of_mem_anchors hmem)
    intro ys k hbytes hanchors
    cases ys with
    | nil => cases piece <;> simp [bytes, anchors] at hbytes hanchors
    | cons other more =>
      cases piece with
      | byte b =>
        cases other with
        | byte c =>
          rw [bytes, bytes, List.cons.injEq] at hbytes
          rw [hbytes.1, ih more (k + 1) hbytes.2 hanchors]
        | token id zeroWidth =>
          exact absurd (by cases zeroWidth <;> rfl) (hmoved hanchors)
      | token id zeroWidth =>
        cases other with
        | byte c => exact absurd (by cases zeroWidth <;> rfl) (hmoved hanchors.symm)
        | token id' zeroWidth' =>
          rw [anchors, anchors, List.cons.injEq, TextStream.TokenAttribution.mk.injEq] at hanchors
          obtain ⟨⟨rfl, hkind⟩, hrest⟩ := hanchors
          have hsame : zeroWidth = zeroWidth' := by
            cases zeroWidth <;> cases zeroWidth' <;> simp at hkind <;> rfl
          rw [hsame, ih more k hbytes hrest]

def IsCut (chunks : List (List Piece)) (output : List Piece) : Prop :=
  chunks.flatten = output ∧ ∀ chunk ∈ chunks, ReasoningDelimiters.IsChunk chunk

def IsDelimiter (d : ReasoningDelimiters) (text : Bytes) : Prop :=
  (∃ m, text = d.marker m ∨ text = d.framedMarker m) ∨ ∃ m, text <:+ d.after m

/-- The output is in sections, in order, and every stream of it yields their texts. -/
structure Lossless (p : DelimitedReasoningParser) (output : List Piece)
    (sections : List Section) : Prop where
  whole : bytes (sections.flatMap Section.pieces) = bytes output
  delimiters : ∀ pieces, Section.delimiter pieces ∈ sections →
    IsDelimiter p.toReasoningDelimiters (bytes pieces)
  texts : ∀ chunks, IsCut chunks output →
    (collected ReasoningDelta.reasoning (p.run (chunks.map decoded))).text =
        bytes (modePieces true sections) ∧
      (collected ReasoningDelta.content (p.run (chunks.map decoded))).text =
        bytes (modePieces false sections)

/-- Nothing of an output is lost, and the reasoning is that of one push of the whole. -/
structure CutIndependent (p : DelimitedReasoningParser) (output : List Piece) : Prop where
  lossless : ∃ sections, Lossless p output sections
  reasoning : ∀ chunks, IsCut chunks output →
    collected ReasoningDelta.reasoning (p.run (chunks.map decoded)) =
      collected ReasoningDelta.reasoning (p.run [decoded output])

namespace ReasoningDelimiters

variable {d : ReasoningDelimiters} {m : Bool} {pending : Bytes} {output : List Piece}

theorem bytes_split (n : Nat) (xs : List Piece) :
    bytes (drain n xs).1 ++ bytes (drain n xs).2 = bytes xs := by
  rw [(bytes_drain _ _).1, (bytes_drain _ _).2, take_append_drop]

theorem bytes_scan (finishing m : Bool) (pending : Bytes) (output : List Piece) :
    bytes ((d.scan finishing m pending output).1.flatMap Section.pieces) ++
    bytes (d.scan finishing m pending output).2.buffer = bytes output ∧
    (finishing = true → bytes (d.scan finishing m pending output).2.buffer = []) := by
  induction hlen : (bytes output).length using Nat.strong_induction_on
    generalizing m pending output with
  | _ len ih =>
    have hpass : ∀ m pending, Passes finishing pending (bytes output) →
        bytes ((d.scan finishing m pending output).1.flatMap Section.pieces) ++
            bytes (d.scan finishing m pending output).2.buffer = bytes output ∧
          (finishing = true → bytes (d.scan finishing m pending output).2.buffer = []) := by
      intro m pending hp
      cases hb : d.boundary m (bytes output) with
      | some be =>
        obtain ⟨hbe, hle⟩ := boundary_bounds (b := be.1) (e := be.2) hb
        have hnext := ih (bytes (atBoundary be output).2).length (by
          rw [bytes_atBoundary _ _ (Nat.le_of_lt hbe), length_drop]
          omega) (!m) (d.after !m) _ rfl
        rw [scan_boundary hp hb]
        refine ⟨?_, hnext.2⟩
        dsimp only
        rw [flatMap_cons, flatMap_cons, bytes_append, bytes_append, append_assoc,
          append_assoc, hnext.1]
        show bytes (drain be.1 output).1 ++ (bytes (drain _ _).1 ++ bytes (drain _ _).2) = _
        rw [bytes_split, bytes_split]
      | none =>
        rw [scan_rest hp hb]
        refine ⟨?_, fun hfinish => ?_⟩
        · dsimp only
          rw [flatMap_cons, flatMap_nil, append_nil]
          exact bytes_split _ output
        · rw [if_pos hfinish, Nat.sub_zero, (bytes_drain _ _).2, drop_length]
    rcases firstPart_cases pending (bytes output) with ⟨hne, hq⟩ | ⟨hne, hq, hwaits⟩ | hp
    · have hpos := length_pos_iff.mpr hne
      have hle := hq.length_le
      have hnext := ih (bytes (drain pending.length output).2).length (by
        rw [(bytes_drain _ _).2, length_drop]
        omega) m [] _ rfl
      rw [scan_after hne hq]
      refine ⟨?_, hnext.2⟩
      dsimp only
      rw [flatMap_cons, bytes_append, append_assoc, hnext.1]
      exact bytes_split _ output
    · cases finishing with
      | true => exact hpass m pending (.inr ⟨hq, .inl rfl⟩)
      | false =>
        rw [scan_waits hne hq hwaits]
        exact ⟨rfl, fun h => absurd h Bool.false_ne_true⟩
    · refine hpass m pending ?_
      rcases hp with hp | ⟨hq, hp⟩
      · exact .inl hp
      · exact .inr ⟨hq, .inr (hp.resolve_left Bool.false_ne_true)⟩

theorem pending_scan (finishing m : Bool) (pending : Bytes) (hpending : ∃ n, pending <:+ d.after n)
    (output : List Piece) : ∃ n, (d.scan finishing m pending output).2.pendingAfter <:+ d.after n := by
  induction hlen : (bytes output).length using Nat.strong_induction_on
    generalizing m pending output with
  | _ len ih =>
    have hpass : Passes finishing pending (bytes output) →
        ∃ n, (d.scan finishing m pending output).2.pendingAfter <:+ d.after n := by
      intro hp
      cases hb : d.boundary m (bytes output) with
      | some be =>
        obtain ⟨hbe, hle⟩ := boundary_bounds (b := be.1) (e := be.2) hb
        rw [scan_boundary hp hb]
        refine ih (bytes (atBoundary be output).2).length ?_ (!m) (d.after !m)
          ⟨!m, suffix_refl _⟩ _ rfl
        rw [bytes_atBoundary _ _ (Nat.le_of_lt hbe), length_drop]
        omega
      | none =>
        rw [scan_rest hp hb]
        exact ⟨true, nil_suffix⟩
    rcases firstPart_cases pending (bytes output) with ⟨hne, hq⟩ | ⟨hne, hq, hwaits⟩ | hp
    · have hpos := length_pos_iff.mpr hne
      have hle := hq.length_le
      rw [scan_after hne hq]
      refine ih (bytes (drain pending.length output).2).length ?_ m []
        ⟨true, nil_suffix⟩ _ rfl
      rw [(bytes_drain _ _).2, length_drop]
      omega
    · cases finishing with
      | true => exact hpass (.inr ⟨hq, .inl rfl⟩)
      | false =>
        rw [scan_waits hne hq hwaits]
        exact hpending
    · refine hpass ?_
      rcases hp with hp | ⟨hq, hp⟩
      · exact .inl hp
      · exact .inr ⟨hq, .inr (hp.resolve_left Bool.false_ne_true)⟩

theorem isDelimiter_scan (finishing m : Bool) (pending : Bytes)
    (hpending : ∃ n, pending <:+ d.after n) (output : List Piece) {pieces : List Piece}
    (hmem : Section.delimiter pieces ∈ (d.scan finishing m pending output).1) :
    IsDelimiter d (bytes pieces) := by
  induction hlen : (bytes output).length using Nat.strong_induction_on
    generalizing m pending output with
  | _ len ih =>
    have hpass : ∀ m pending, Passes finishing pending (bytes output) →
        Section.delimiter pieces ∈ (d.scan finishing m pending output).1 →
        IsDelimiter d (bytes pieces) := by
      intro m pending hp hmem
      cases hb : d.boundary m (bytes output) with
      | some be =>
        obtain ⟨hbe, hle⟩ := boundary_bounds (b := be.1) (e := be.2) hb
        rw [scan_boundary hp hb, mem_cons, mem_cons] at hmem
        rcases hmem with hmem | hmem | hmem
        · cases hmem
        · rw [Section.delimiter.inj hmem]
          have htext := boundary_text (b := be.1) (e := be.2) hb
          rw [atBoundary, (bytes_drain _ _).1, (bytes_drain _ _).2]
          exact .inl ⟨m, htext⟩
        · refine ih (bytes (atBoundary be output).2).length ?_ (!m) (d.after !m)
            ⟨!m, suffix_refl _⟩ _ hmem rfl
          rw [bytes_atBoundary _ _ (Nat.le_of_lt hbe), length_drop]
          omega
      | none =>
        rw [scan_rest hp hb, mem_singleton] at hmem
        cases hmem
    rcases firstPart_cases pending (bytes output) with ⟨hne, hq⟩ | ⟨hne, hq, hwaits⟩ | hp
    · have hpos := length_pos_iff.mpr hne
      have hle := hq.length_le
      rw [scan_after hne hq, mem_cons] at hmem
      rcases hmem with hmem | hmem
      · rw [Section.delimiter.inj hmem, (bytes_drain _ _).1]
        obtain ⟨more, hmore⟩ := hq
        rw [← hmore, take_left]
        exact .inr hpending
      · refine ih (bytes (drain pending.length output).2).length ?_ m []
          ⟨true, nil_suffix⟩ _ hmem rfl
        rw [(bytes_drain _ _).2, length_drop]
        omega
    · cases finishing with
      | true => exact hpass m pending (.inr ⟨hq, .inl rfl⟩) hmem
      | false =>
        rw [scan_waits hne hq hwaits] at hmem
        cases hmem
    · refine hpass m pending ?_ hmem
      rcases hp with hp | ⟨hq, hp⟩
      · exact .inl hp
      · exact .inr ⟨hq, .inr (hp.resolve_left Bool.false_ne_true)⟩

end ReasoningDelimiters

namespace DelimitedReasoningParser

variable {p q : DelimitedReasoningParser} {promptTokenIds : List UInt32} {output : List Piece}

def sections (p : DelimitedReasoningParser) (output : List Piece) : List Section :=
  p.pushed p.currentInReasoning p.pendingAfter output

theorem textOf_nil (n m : Bool) : textOf n m [] = [] := by
  unfold textOf
  split <;> rfl

theorem collected_of_start (hbuffer : p.buffer = {}) (chunks : List (List Piece)) :
    collected ReasoningDelta.reasoning (p.run (chunks.map decoded)) = decoded (modePieces true
    (p.sectionsOf ⟨p.currentInReasoning, p.pendingAfter, []⟩ chunks).flatten) ∧
    collected ReasoningDelta.content (p.run (chunks.map decoded)) = decoded (modePieces false
    (p.sectionsOf ⟨p.currentInReasoning, p.pendingAfter, []⟩ chunks).flatten) := by
  have hstate : p = p.inState ⟨p.currentInReasoning, p.pendingAfter, []⟩ := by
    unfold inState
    rw [show decoded [] = ({} : DecodedText) from rfl, ← hbuffer]
  have hrun := collected_run p ⟨p.currentInReasoning, p.pendingAfter, []⟩ chunks
  rwa [← hstate] at hrun

theorem sectionsOf_one (p : DelimitedReasoningParser) (output : List Piece) :
    (p.sectionsOf ⟨p.currentInReasoning, p.pendingAfter, []⟩ [output]).flatten =
    p.sections output := by
  simp [sectionsOf, sections, ReasoningDelimiters.pushed]

theorem texts_of_cut (hbuffer : p.buffer = {}) {chunks : List (List Piece)}
    (hcut : IsCut chunks output) :
    (collected ReasoningDelta.reasoning (p.run (chunks.map decoded))).text =
    bytes (modePieces true (p.sections output)) ∧
    (collected ReasoningDelta.content (p.run (chunks.map decoded))).text =
    bytes (modePieces false (p.sections output)) := by
  obtain ⟨hreasoning, hcontent⟩ := collected_of_start hbuffer chunks
  have hview : ∀ n, bytes (modePieces n
      (p.sectionsOf ⟨p.currentInReasoning, p.pendingAfter, []⟩ chunks).flatten) =
        bytes (modePieces n (p.sections output)) := by
    intro n
    rw [bytes_modePieces, bytes_modePieces]
    have hrun := ReasoningDelimiters.view_run p (w := textOf n) (textOf_nil n)
      (fun _ _ _ => True) (fun m pending first rest _ hclosed hchunk =>
        ⟨ReasoningDelimiters.joins_text _ n m pending hclosed hchunk.1 hchunk.2, trivial⟩)
      chunks hcut.2
      (ReasoningDelimiters.held_nil _ p.currentInReasoning p.pendingAfter) trivial
    rw [nil_append, hcut.1] at hrun
    exact hrun
  rw [hreasoning, hcontent]
  exact ⟨hview true, hview false⟩

theorem lossless_sections (hstart : q.initializeFrom promptTokenIds = .ok p)
    (output : List Piece) : Lossless p output (p.sections output) := by
  obtain ⟨hbuffer, hpending⟩ := initializeFrom_state hstart
  refine ⟨?_, fun pieces hmem => ?_, fun chunks hcut => texts_of_cut hbuffer hcut⟩
  · have hpush := (ReasoningDelimiters.bytes_scan (d := p.toReasoningDelimiters) false
      p.currentInReasoning p.pendingAfter output).1
    obtain ⟨hfinish, hempty⟩ := ReasoningDelimiters.bytes_scan (d := p.toReasoningDelimiters) true
      (p.scan false p.currentInReasoning p.pendingAfter output).2.inReasoning
      (p.scan false p.currentInReasoning p.pendingAfter output).2.pendingAfter
      (p.scan false p.currentInReasoning p.pendingAfter output).2.buffer
    rw [hempty rfl, append_nil] at hfinish
    rw [sections, ReasoningDelimiters.pushed, flatMap_append, bytes_append, hfinish, hpush]
  · rw [sections, ReasoningDelimiters.pushed, mem_append] at hmem
    rcases hmem with hmem | hmem
    · exact ReasoningDelimiters.isDelimiter_scan false _ _ hpending output hmem
    · exact ReasoningDelimiters.isDelimiter_scan true _ _
        (ReasoningDelimiters.pending_scan false _ _ hpending output) _ hmem

/-- Nothing is lost by any cut, and the reasoning is the same for every cut exactly where the
output is settled. -/
theorem cutIndependent_iff (hstart : q.initializeFrom promptTokenIds = .ok p)
    (whole : ReasoningDelimiters.IsChunk output) : CutIndependent p output ↔
    p.Settled p.currentInReasoning p.pendingAfter output := by
  obtain ⟨hbuffer, hpending⟩ := initializeFrom_state hstart
  have hreasoning : ∀ chunks : List (List Piece),
      collected ReasoningDelta.reasoning (p.run (chunks.map decoded)) =
        decoded (modePieces true
          (p.sectionsOf ⟨p.currentInReasoning, p.pendingAfter, []⟩ chunks).flatten) :=
    fun chunks => (collected_of_start hbuffer chunks).1
  have hone : collected ReasoningDelta.reasoning (p.run [decoded output]) =
      decoded (modePieces true (p.sections output)) := by
    rw [← sectionsOf_one]
    exact hreasoning [output]
  constructor
  · intro same
    have apart : ∀ m, p.boundary m p.pendingAfter = none := by
      intro m
      obtain ⟨n, hn⟩ := hpending
      exact ReasoningDelimiters.boundary_suffix_after n hn
    refine ReasoningDelimiters.settled_of_joins _ _ _ apart whole.1 fun first rest hcut hclosed
      hchunk => ?_
    have hfirst : ReasoningDelimiters.IsChunk first := by
      refine ⟨hclosed, fun b hb => whole.2 b ?_⟩
      rw [hcut, bytes_append, head?_append, Option.mem_def.mp hb]
      rfl
    have htwo := same.reasoning [first, rest] ⟨by simp [hcut], by simp [hfirst, hchunk]⟩
    rw [hone, hreasoning] at htwo
    have hpieces := decoded_injective htwo
    rw [modePieces_eq_view, modePieces_eq_view, hcut] at hpieces
    simpa [ReasoningDelimiters.Joins, sectionsOf, sections, ReasoningDelimiters.pushed]
      using hpieces
  · intro settled
    refine ⟨⟨_, lossless_sections hstart output⟩, fun chunks hcut => ?_⟩
    have hrun := ReasoningDelimiters.view_run p (ReasoningDelimiters.piecesOf_nil true) p.Settled
      (fun m pending first rest holds hclosed hchunk =>
        ReasoningDelimiters.Settled.joins holds first rest rfl hclosed hchunk)
      chunks hcut.2
      (ReasoningDelimiters.held_nil _ p.currentInReasoning p.pendingAfter)
      (by rwa [nil_append, hcut.1])
    rw [nil_append, hcut.1] at hrun
    rw [hone, hreasoning, modePieces_eq_view, modePieces_eq_view, hrun]
    rfl

/-- Reasoning between `<` and `>`. -/
def angled : DelimitedReasoningParser where
  startToken := [60]
  endToken := [62]
  start_ne := cons_ne_nil _ _
  end_ne := cons_ne_nil _ _
  start_chars := by decide +kernel
  end_chars := by decide +kernel
  beforeStart_chars := by decide +kernel
  beforeEnd_chars := by decide +kernel
  apart := by decide +kernel
  tokenizer := { decode := fun _ _ => .ok [], idToToken := fun _ => none, isSpecialId := fun _ => false }
  startTokenId := 60
  endTokenId := 62
  currentInReasoning := false
  buffer := {}
  pendingAfter := []

/-- The output `<a>`. -/
def angledThought : List Piece :=
  [.token 60 false, .byte 60, .token 97 false, .byte 97, .token 62 false, .byte 62]

theorem angledThought_settled : angled.Settled false [] angledThought := by
  refine @ReasoningDelimiters.Settled.boundary _ _ _ _ (0, 1) (.inl rfl) (by decide +kernel) (fun h => by cases h)
    (fun _ _ _ => ?_) ?_
  · show ∀ a ∈ (decoded angledThought).attributions, a.anchor ≠ .zeroWidth 1
    decide +kernel
  refine @ReasoningDelimiters.Settled.boundary _ _ _ _ (1, 2) (.inl rfl) (by decide +kernel) (fun _ => ?_)
    (fun h => by cases h) (.last (.inl rfl) (by decide +kernel) (fun h => by cases h))
  have hnone : ∀ c ≤ 2, ¬c - angled.keepLen true (List.take c [97, 62]) < c ∨ OrderedAt
      (c - angled.keepLen true (List.take c [97, 62]))
      [.token 97 false, .byte 97, .token 62 false, .byte 62] := by decide +kernel
  intro c hc _ _ _ hlt _
  exact (hnone c hc).resolve_left (not_not_intro hlt)

theorem angledThought_isChunk : ReasoningDelimiters.IsChunk angledThought :=
  ⟨⟨cons_ne_nil _ _, cons_ne_nil _ _, cons_ne_nil _ _, trivial⟩, by decide +kernel⟩

theorem angledThought_cutIndependent : CutIndependent angled angledThought :=
  (cutIndependent_iff (show angled.initializeFrom [] = .ok angled from rfl)
    angledThought_isChunk).mpr angledThought_settled

/-- A zero-width token that comes right behind `<`, in the next push. -/
theorem zeroWidth_not_cutIndependent : ¬CutIndependent angled
    [.token 60 false, .byte 60, .token 7 true, .token 97 false, .byte 97] := by
  intro same
  have hlate := same.reasoning
    [[.token 60 false, .byte 60], [.token 7 true, .token 97 false, .byte 97]] ?_
  · revert hlate
    decide +kernel
  · refine ⟨rfl, fun chunk hchunk => ?_⟩
    rw [mem_pair] at hchunk
    rcases hchunk with rfl | rfl
    · exact ⟨⟨cons_ne_nil _ _, trivial⟩, by decide +kernel⟩
    · exact ⟨⟨cons_ne_nil _ _, trivial⟩, by decide +kernel⟩

end DelimitedReasoningParser

end VllmAmpere.OutputText
