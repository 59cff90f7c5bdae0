import VllmAmpere.AttributedText

/-! Decoded text as a list of bytes and tokens: a token stands before the byte it is anchored
at, so texts are joined by joining lists, and a split of a text is a split of the list but for
the tokens at its place. -/

open List

namespace VllmAmpere

namespace TextStream

namespace TokenAttribution

/-- Whether a token moves to a prefix of `len` bytes. -/
def inPrefix (len : Nat) (a : TokenAttribution) : Bool :=
  match a.anchor with
  | .visible byteOffset => byteOffset < len
  | .zeroWidth byteOffset => byteOffset ≤ len

def offsetBy (delta : Int) (a : TokenAttribution) : TokenAttribution :=
  { a with anchor := a.anchor.offsetBy delta }

end TokenAttribution

/-- Split off the prefix `[0, len)`; the suffix comes second. -/
def DecodedText.drainPrefix (d : DecodedText) (len : Nat) : DecodedText × DecodedText :=
  (⟨d.text.take len, d.attributions.filter (TokenAttribution.inPrefix len)⟩,
    ⟨d.text.drop len, (d.attributions.filter fun a => !a.inPrefix len).map
      (TokenAttribution.offsetBy (-len))⟩)

end TextStream

namespace OutputText

open TextStream (Bytes DecodedText TokenAttribution TokenAnchor)

/-- A byte of text or a token. -/
inductive Piece where
  | byte (b : UInt8)
  | token (tokenId : UInt32) (zeroWidth : Bool)
  deriving DecidableEq

def bytes : List Piece → Bytes
  | [] => []
  | .byte b :: rest => b :: bytes rest
  | .token _ _ :: rest => bytes rest

def anchors : Nat → List Piece → List TokenAttribution
  | _, [] => []
  | n, .byte _ :: rest => anchors (n + 1) rest
  | n, .token tokenId zeroWidth :: rest =>
    ⟨tokenId, if zeroWidth then .zeroWidth n else .visible n⟩ :: anchors n rest

def decoded (pieces : List Piece) : DecodedText := ⟨bytes pieces, anchors 0 pieces⟩

/-- The pieces of a prefix and the rest: zero-width tokens at the split belong to the prefix,
visible ones to the rest. -/
def drain : Nat → List Piece → List Piece × List Piece
  | _, [] => ([], [])
  | 0, .byte b :: rest => ([], .byte b :: rest)
  | n + 1, .byte b :: rest => (.byte b :: (drain n rest).1, (drain n rest).2)
  | n, .token tokenId true :: rest => (.token tokenId true :: (drain n rest).1, (drain n rest).2)
  | 0, .token tokenId false :: rest =>
    ((drain 0 rest).1, .token tokenId false :: (drain 0 rest).2)
  | n + 1, .token tokenId false :: rest =>
    (.token tokenId false :: (drain (n + 1) rest).1, (drain (n + 1) rest).2)

theorem drain_token_succ (n : Nat) (tokenId : UInt32) (zeroWidth : Bool) (rest : List Piece) :
    drain (n + 1) (.token tokenId zeroWidth :: rest) =
    (.token tokenId zeroWidth :: (drain (n + 1) rest).1, (drain (n + 1) rest).2) := by
  cases zeroWidth <;> rw [drain]

def Closed : List Piece → Prop
  | [] => True
  | .token _ false :: rest => bytes rest ≠ [] ∧ Closed rest
  | .byte _ :: rest | .token _ true :: rest => Closed rest

section spelling

variable (xs ys : List Piece) (n : Nat)

@[simp] theorem bytes_append : bytes (xs ++ ys) = bytes xs ++ bytes ys := by
  induction xs with
  | nil => rfl
  | cons piece rest ih => cases piece <;> simp [bytes, ih]

theorem anchors_append :
    anchors n (xs ++ ys) = anchors n xs ++ anchors (n + (bytes xs).length) ys := by
  induction xs generalizing n with
  | nil => rfl
  | cons piece rest ih =>
    cases piece with
    | byte b => simp [anchors, bytes, ih, Nat.add_comm 1, Nat.add_assoc]
    | token tokenId zeroWidth => simp [anchors, bytes, ih]

theorem anchors_offsetBy (k : Nat) :
    (anchors n xs).map (TokenAttribution.offsetBy k) = anchors (n + k) xs := by
  induction xs generalizing n with
  | nil => rfl
  | cons piece rest ih =>
    cases piece with
    | byte b =>
      rw [anchors, anchors, ih, Nat.add_right_comm]
    | token tokenId zeroWidth =>
      rw [anchors, anchors, map_cons, ih]
      congr 1
      cases zeroWidth <;> simp [TokenAttribution.offsetBy, TokenAnchor.offsetBy] <;> omega

theorem anchors_offsetBy_neg {k : Nat} (hk : k ≤ n) :
    (anchors n xs).map (TokenAttribution.offsetBy (-k)) = anchors (n - k) xs := by
  induction xs generalizing n with
  | nil => rfl
  | cons piece rest ih =>
    cases piece with
    | byte b =>
      rw [anchors, anchors, ih _ (Nat.le_succ_of_le hk), Nat.succ_sub hk]
    | token tokenId zeroWidth =>
      rw [anchors, anchors, map_cons, ih _ hk]
      congr 1
      cases zeroWidth <;> simp [TokenAttribution.offsetBy, TokenAnchor.offsetBy] <;> omega

theorem decoded_append : decoded (xs ++ ys) = (decoded xs).append (decoded ys) := by
  have hanchors := anchors_offsetBy ys 0 (bytes xs).length
  unfold DecodedText.append
  split
  · rename_i hempty
    cases xs with
    | nil => rfl
    | cons piece rest => cases piece <;> simp [decoded, DecodedText.isEmpty, bytes, anchors] at hempty
  · rw [decoded, bytes_append, anchors_append, ← hanchors]
    rfl

theorem decoded_isEmpty : (decoded xs).isEmpty = xs.isEmpty := by
  cases xs with
  | nil => rfl
  | cons piece rest => cases piece <;> simp [decoded, DecodedText.isEmpty, bytes, anchors]

end spelling

section draining

variable (xs ys : List Piece) (n : Nat)

theorem bytes_drain : bytes (drain n xs).1 = (bytes xs).take n ∧
    bytes (drain n xs).2 = (bytes xs).drop n := by
  induction xs generalizing n with
  | nil => simp [drain, bytes]
  | cons piece rest ih =>
    cases piece with
    | byte b => cases n <;> simp [drain, bytes, ih]
    | token tokenId zeroWidth =>
      cases n with
      | zero => cases zeroWidth <;> simp [drain, bytes, ih]
      | succ n => simp [drain_token_succ, bytes, ih]

theorem bytes_drain_zero : bytes (drain 0 xs).2 = bytes xs := by
  rw [(bytes_drain xs 0).2, drop_zero]

theorem inPrefix_of_lt {n k : Nat} (h : n < k) :
    (anchors k xs).filter (TokenAttribution.inPrefix n) = [] := by
  induction xs generalizing k with
  | nil => rfl
  | cons piece rest ih =>
    cases piece with
    | byte b => exact ih (Nat.lt_succ_of_lt h)
    | token tokenId zeroWidth =>
      rw [anchors, filter_cons_of_neg, ih h]
      cases zeroWidth <;> simp [TokenAttribution.inPrefix] <;> omega

theorem outPrefix_of_lt {n k : Nat} (h : n < k) :
    (anchors k xs).filter (fun a => !a.inPrefix n) = anchors k xs := by
  rw [filter_eq_self]
  intro a ha
  have hnone := inPrefix_of_lt xs h
  rw [filter_eq_nil_iff] at hnone
  simpa using hnone a ha

theorem anchors_drain (m : Nat) :
    (anchors m xs).filter (TokenAttribution.inPrefix (m + n)) = anchors m (drain n xs).1 ∧
    ((anchors m xs).filter fun a => !a.inPrefix (m + n)).map
    (TokenAttribution.offsetBy (-(m + n : Nat))) = anchors 0 (drain n xs).2 := by
  induction xs generalizing n m with
  | nil => exact ⟨rfl, rfl⟩
  | cons piece rest ih =>
    cases piece with
    | byte b =>
      cases n with
      | zero =>
        refine ⟨inPrefix_of_lt rest (Nat.lt_succ_self m), ?_⟩
        rw [Nat.add_zero, anchors, outPrefix_of_lt rest (Nat.lt_succ_self m),
          anchors_offsetBy_neg _ _ (Nat.le_succ m), Nat.succ_sub (Nat.le_refl m), Nat.sub_self]
        rfl
      | succ n =>
        rw [drain, anchors, anchors, show m + (n + 1) = m + 1 + n by omega]
        exact ih n (m + 1)
    | token tokenId zeroWidth =>
      cases n with
      | zero =>
        cases zeroWidth with
        | true =>
          have hin : (TokenAttribution.mk tokenId (.zeroWidth m)).inPrefix (m + 0) = true := by
            simp [TokenAttribution.inPrefix]
          simp only [drain, anchors, if_true, filter_cons_of_pos hin, hin, Bool.not_true,
            Bool.false_eq_true, not_false_eq_true, filter_cons_of_neg]
          exact ⟨congrArg _ (ih 0 m).1, (ih 0 m).2⟩
        | false =>
          have hin : (TokenAttribution.mk tokenId (.visible m)).inPrefix (m + 0) = false := by
            simp [TokenAttribution.inPrefix]
          simp only [drain, anchors, Bool.false_eq_true, if_false, hin, not_false_eq_true,
            filter_cons_of_neg, Bool.not_false, filter_cons_of_pos, map_cons]
          refine ⟨(ih 0 m).1, ?_⟩
          rw [(ih 0 m).2]
          congr 1
          simp only [TokenAttribution.offsetBy, TokenAnchor.offsetBy]
          congr 2
          omega
      | succ n =>
        have hin : (TokenAttribution.mk tokenId
            (if zeroWidth then .zeroWidth m else .visible m)).inPrefix (m + (n + 1)) = true := by
          cases zeroWidth <;> simp [TokenAttribution.inPrefix]
        simp only [drain_token_succ, anchors, filter_cons_of_pos hin, hin, Bool.not_true,
          Bool.false_eq_true, not_false_eq_true, filter_cons_of_neg]
        exact ⟨congrArg _ (ih (n + 1) m).1, (ih (n + 1) m).2⟩

theorem decoded_drain : (decoded xs).drainPrefix n = (decoded (drain n xs).1,
    decoded (drain n xs).2) := by
  obtain ⟨hin, hout⟩ := anchors_drain xs n 0
  rw [Nat.zero_add] at hin hout
  rw [decoded, DecodedText.drainPrefix, hin, hout, ← (bytes_drain xs n).1,
    ← (bytes_drain xs n).2]
  rfl

theorem length_drain : (drain n xs).1.length + (drain n xs).2.length = xs.length := by
  induction xs generalizing n with
  | nil => rfl
  | cons piece rest ih =>
    cases piece with
    | byte b =>
      cases n with
      | zero => simp [drain]
      | succ n =>
        have := ih n
        simp only [drain, length_cons]
        omega
    | token tokenId zeroWidth =>
      have hzero := ih 0
      have hn := ih n
      cases n with
      | zero => cases zeroWidth <;> simp only [drain, length_cons] <;> omega
      | succ n =>
        simp only [drain_token_succ, length_cons]
        omega

theorem drain_append_of_lt (h : n < (bytes xs).length) :
    drain n (xs ++ ys) = ((drain n xs).1, (drain n xs).2 ++ ys) := by
  induction xs generalizing n with
  | nil => exact absurd h (Nat.not_lt_zero n)
  | cons piece rest ih =>
    cases piece with
    | byte b =>
      cases n with
      | zero => rfl
      | succ n =>
        rw [cons_append, drain, ih n (Nat.lt_of_succ_lt_succ h)]
        rfl
    | token tokenId zeroWidth =>
      cases n with
      | zero =>
        rw [cons_append]
        cases zeroWidth with
        | true => rw [drain, drain, ih 0 h]
        | false =>
          rw [drain, drain, ih 0 h]
          rfl
      | succ n => rw [cons_append, drain_token_succ, drain_token_succ, ih (n + 1) h]

theorem drain_append_of_gt (h : (bytes xs).length < n) : drain n (xs ++ ys) =
    (xs ++ (drain (n - (bytes xs).length) ys).1, (drain (n - (bytes xs).length) ys).2) := by
  induction xs generalizing n with
  | nil => rfl
  | cons piece rest ih =>
    obtain ⟨n, rfl⟩ := Nat.exists_eq_succ_of_ne_zero (Nat.ne_zero_of_lt h)
    cases piece with
    | byte b =>
      rw [cons_append, drain, ih n (Nat.lt_of_succ_lt_succ h), bytes, length_cons,
        Nat.succ_sub_succ]
      rfl
    | token tokenId zeroWidth =>
      rw [cons_append, drain_token_succ, ih (n + 1) h]
      rfl

theorem drain_append_of_eq (closed : Closed xs) :
    drain (bytes xs).length (xs ++ ys) = (xs ++ (drain 0 ys).1, (drain 0 ys).2) := by
  induction xs with
  | nil => rfl
  | cons piece rest ih =>
    cases piece with
    | byte b =>
      rw [cons_append, bytes, length_cons, drain, ih closed]
      rfl
    | token tokenId zeroWidth =>
      cases zeroWidth with
      | true =>
        rw [cons_append, bytes, drain, ih closed]
        rfl
      | false =>
        obtain ⟨k, hk⟩ := Nat.exists_eq_succ_of_ne_zero
          (Nat.ne_of_gt (length_pos_iff.mpr closed.1))
        have hrest := ih closed.2
        rw [hk] at hrest
        rw [cons_append, bytes, hk, drain, hrest]
        rfl

theorem drain_length (closed : Closed xs) : drain (bytes xs).length xs = (xs, []) := by
  have h := drain_append_of_eq xs [] closed
  rwa [drain, append_nil] at h

theorem Closed.append {xs ys : List Piece} (hx : Closed xs) (hy : Closed ys) :
    Closed (xs ++ ys) := by
  induction xs with
  | nil => exact hy
  | cons piece rest ih =>
    cases piece with
    | byte b => exact ih hx
    | token tokenId zeroWidth =>
      cases zeroWidth with
      | true => exact ih hx
      | false =>
        refine ⟨?_, ih hx.2⟩
        show bytes (rest ++ ys) ≠ []
        rw [bytes_append]
        exact append_ne_nil_of_left_ne_nil hx.1 _

theorem Closed.of_append {xs ys : List Piece} (h : Closed (xs ++ ys)) : Closed ys := by
  induction xs with
  | nil => exact h
  | cons piece rest ih =>
    cases piece with
    | byte b => exact ih h
    | token tokenId zeroWidth =>
      cases zeroWidth with
      | true => exact ih h
      | false => exact ih h.2

theorem Closed.drain_snd {xs : List Piece} (h : Closed xs) (n : Nat) : Closed (drain n xs).2 := by
  induction xs generalizing n with
  | nil => trivial
  | cons piece rest ih =>
    cases piece with
    | byte b =>
      cases n with
      | zero => exact h
      | succ n => exact ih h n
    | token tokenId zeroWidth =>
      cases zeroWidth with
      | true =>
        rw [drain]
        exact ih h n
      | false =>
        cases n with
        | zero => exact ⟨(bytes_drain rest 0).2.symm ▸ h.1, ih h.2 0⟩
        | succ n => exact ih h.2 (n + 1)

theorem exists_split {xs : List Piece} {n : Nat} (h : n ≤ (bytes xs).length) :
    ∃ first rest, xs = first ++ rest ∧ Closed first ∧ (bytes first).length = n := by
  induction xs generalizing n with
  | nil => exact ⟨[], [], rfl, trivial, (Nat.le_zero.mp h).symm⟩
  | cons piece rest ih =>
    cases n with
    | zero => exact ⟨[], piece :: rest, rfl, trivial, rfl⟩
    | succ n =>
      cases piece with
      | byte b =>
        obtain ⟨first, more, rfl, hclosed, hlen⟩ := ih (Nat.le_of_succ_le_succ h)
        exact ⟨.byte b :: first, more, rfl, hclosed, congrArg Nat.succ hlen⟩
      | token tokenId zeroWidth =>
        obtain ⟨first, more, rfl, hclosed, hlen⟩ := ih h
        refine ⟨.token tokenId zeroWidth :: first, more, rfl, ?_, hlen⟩
        cases zeroWidth with
        | true => exact hclosed
        | false => exact ⟨length_pos_iff.mp (hlen ▸ Nat.succ_pos n), hclosed⟩

theorem cut_drain {first rest : List Piece} (h : (drain n xs).2 = first ++ rest)
    (hne : bytes first ≠ []) : ∃ whole, xs = whole ++ rest ∧ (drain n whole).2 = first ∧
    (Closed first → Closed whole) := by
  induction xs generalizing n first with
  | nil =>
    cases n <;>
    · rw [drain] at h
      rw [(append_eq_nil_iff.mp h.symm).1] at hne
      exact absurd rfl hne
  | cons piece more ih =>
    have hbytes : ∀ {whole : List Piece}, (drain n whole).2 = first → bytes whole ≠ [] := by
      rintro whole hwhole hnil
      rw [← hwhole, (bytes_drain _ _).2, hnil] at hne
      simp at hne
    cases piece with
    | byte b =>
      cases n with
      | zero => exact ⟨first, h, by
          obtain ⟨p, q, rfl⟩ := exists_cons_of_ne_nil (l := first) (by rintro rfl; exact hne rfl)
          rw [cons_append] at h
          rw [← (List.cons.inj h).1]
          rfl, id⟩
      | succ n =>
        obtain ⟨whole, rfl, hwhole, hclosed⟩ := ih n h hne
        exact ⟨.byte b :: whole, rfl, hwhole, hclosed⟩
    | token tokenId zeroWidth =>
      cases zeroWidth with
      | true =>
        rw [drain] at h
        obtain ⟨whole, rfl, hwhole, hclosed⟩ := ih n h hne
        refine ⟨.token tokenId true :: whole, rfl, ?_, hclosed⟩
        rw [drain]
        exact hwhole
      | false =>
        cases n with
        | succ n =>
          obtain ⟨whole, rfl, hwhole, hclosed⟩ := ih (n + 1) h hne
          exact ⟨.token tokenId false :: whole, rfl, hwhole, fun hc => ⟨hbytes hwhole, hclosed hc⟩⟩
        | zero =>
          rw [drain] at h
          cases first with
          | nil => exact absurd rfl hne
          | cons p q =>
            rw [cons_append, List.cons.injEq] at h
            obtain ⟨rfl, h⟩ := h
            obtain ⟨whole, rfl, hwhole, hclosed⟩ := ih 0 h hne
            refine ⟨.token tokenId false :: whole, rfl, ?_, fun hc => ⟨?_, hclosed hc.2⟩⟩
            · rw [drain, hwhole]
            · rw [← bytes_drain_zero whole, hwhole]
              exact hne

end draining

def OrderedAt (n : Nat) (xs : List Piece) : Prop := (drain n xs).1 ++ (drain n xs).2 = xs

instance OrderedAt.decidable (n : Nat) (xs : List Piece) : Decidable (OrderedAt n xs) :=
  inferInstanceAs (Decidable (_ = _))

section order

variable {xs : List Piece} {p b : Nat}

theorem drain_zero_drain (xs : List Piece) (p : Nat) :
    drain 0 (drain p xs).2 = ([], (drain p xs).2) := by
  induction xs generalizing p with
  | nil => rfl
  | cons piece rest ih =>
    cases piece with
    | byte b =>
      cases p with
      | zero => rfl
      | succ p => exact ih p
    | token tokenId zeroWidth =>
      cases zeroWidth with
      | true =>
        rw [drain]
        exact ih p
      | false =>
        cases p with
        | zero => rw [drain, drain, ih 0]
        | succ p => exact ih (p + 1)

theorem drain_drain_snd (xs : List Piece) (h : p ≤ b) :
    (drain (b - p) (drain p xs).2).2 = (drain b xs).2 := by
  induction xs generalizing p b with
  | nil => cases p <;> rfl
  | cons piece rest ih =>
    cases piece with
    | byte c =>
      cases p with
      | zero => rfl
      | succ p =>
        obtain ⟨b, rfl⟩ := Nat.exists_eq_succ_of_ne_zero (Nat.ne_zero_of_lt h)
        rw [drain, drain, Nat.succ_sub_succ]
        exact ih (Nat.le_of_succ_le_succ h)
    | token tokenId zeroWidth =>
      cases p with
      | succ p =>
        obtain ⟨b, rfl⟩ := Nat.exists_eq_succ_of_ne_zero (Nat.ne_zero_of_lt h)
        rw [drain_token_succ, drain_token_succ]
        exact ih h
      | zero =>
        cases zeroWidth with
        | true =>
          rw [drain, drain]
          exact ih h
        | false =>
          cases b with
          | zero => rw [Nat.sub_self, drain_zero_drain]
          | succ b =>
            rw [drain, drain, Nat.sub_zero, drain]
            exact ih (Nat.zero_le (b + 1))

theorem OrderedAt.drain_fst (h : OrderedAt p xs) (hlt : p < b) (hle : p ≤ (bytes xs).length) :
    (drain b xs).1 = (drain p xs).1 ++ (drain (b - p) (drain p xs).2).1 := by
  have hlen : (bytes (drain p xs).1).length = p := by
    rw [(bytes_drain xs p).1, length_take_of_le hle]
  have hsplit := drain_append_of_gt (drain p xs).1 (drain p xs).2 b (by rwa [hlen])
  rw [h, hlen] at hsplit
  exact congrArg Prod.fst hsplit

theorem orderedAt_zero_of_fst (h : (drain 0 xs).1 = []) : OrderedAt 0 xs := by
  induction xs with
  | nil => rfl
  | cons piece rest ih =>
    cases piece with
    | byte b => rfl
    | token tokenId zeroWidth =>
      cases zeroWidth with
      | true => cases h
      | false =>
        rw [drain] at h
        have hrest := ih h
        rw [OrderedAt, h, nil_append] at hrest
        rw [OrderedAt, drain, h, nil_append, hrest]

theorem mem_drain_zero {piece : Piece} (h : piece ∈ (drain 0 xs).1) :
    ∃ tokenId, piece = .token tokenId true := by
  induction xs with
  | nil => cases h
  | cons first rest ih =>
    cases first with
    | byte b => cases h
    | token tokenId zeroWidth =>
      cases zeroWidth with
      | true =>
        rw [drain, mem_cons] at h
        exact h.elim (fun hfirst => ⟨tokenId, hfirst⟩) ih
      | false =>
        rw [drain] at h
        exact ih h

theorem orderedAt_of_drain_fst (hlt : p < b)
    (h : (drain b xs).1 = (drain p xs).1 ++ (drain (b - p) (drain p xs).2).1) : OrderedAt p xs := by
  induction xs generalizing p b with
  | nil => cases p <;> rfl
  | cons piece rest ih =>
    obtain ⟨b, rfl⟩ := Nat.exists_eq_succ_of_ne_zero (Nat.ne_zero_of_lt hlt)
    cases piece with
    | byte c =>
      cases p with
      | zero => rfl
      | succ p =>
        rw [drain, drain, Nat.succ_sub_succ, cons_append, List.cons.injEq] at h
        rw [OrderedAt, drain, cons_append, ih (Nat.lt_of_succ_lt_succ hlt) h.2]
    | token tokenId zeroWidth =>
      cases p with
      | succ p =>
        rw [drain_token_succ, drain_token_succ, cons_append, List.cons.injEq] at h
        rw [OrderedAt, drain_token_succ, cons_append, ih hlt h.2]
      | zero =>
        cases zeroWidth with
        | true =>
          rw [drain, drain, cons_append, List.cons.injEq] at h
          rw [OrderedAt, drain, cons_append, ih hlt h.2]
        | false =>
          refine orderedAt_zero_of_fst ?_
          rw [drain, drain] at h
          rw [drain]
          cases hfirst : (drain 0 rest).1 with
          | nil => rfl
          | cons first more =>
            rw [hfirst, cons_append, List.cons.injEq] at h
            obtain ⟨id, hid⟩ := mem_drain_zero (hfirst ▸ mem_cons_self)
            rw [hid] at h
            cases h.1

theorem orderedAt_succ_token {n : Nat} {tokenId : UInt32} {zeroWidth : Bool} :
    OrderedAt (n + 1) (.token tokenId zeroWidth :: xs) ↔ OrderedAt (n + 1) xs := by
  rw [OrderedAt, drain_token_succ, cons_append, List.cons.injEq]
  exact and_iff_right rfl

theorem OrderedAt.drain {n : Nat} (h : OrderedAt (p + n) xs) :
    OrderedAt n (OutputText.drain p xs).2 := by
  cases n with
  | zero => rw [OrderedAt, drain_zero_drain, nil_append]
  | succ n =>
    induction xs generalizing p with
    | nil => cases p <;> rfl
    | cons piece rest ih =>
      cases piece with
      | byte b =>
        cases p with
        | zero =>
          rw [Nat.zero_add] at h
          exact h
        | succ p =>
          rw [Nat.add_right_comm p 1, OrderedAt, OutputText.drain, cons_append,
            List.cons.injEq] at h
          exact ih h.2
      | token tokenId zeroWidth =>
        have hrest : OrderedAt (p + (n + 1)) rest := orderedAt_succ_token.mp h
        cases p with
        | succ p =>
          rw [drain_token_succ]
          exact ih hrest
        | zero =>
          cases zeroWidth with
          | true =>
            rw [OutputText.drain]
            exact ih hrest
          | false =>
            rw [OutputText.drain]
            exact orderedAt_succ_token.mpr (ih hrest)

end order

end OutputText

end VllmAmpere
