import EvoClaw.AgentLoop.Enforcer
import Mathlib.Algebra.Order.BigOperators.Group.List
import Mathlib.Algebra.Order.Group.Nat
import Mathlib.Data.List.Infix

-- What of a page reaches the model, chunk by chunk.
namespace EvoClaw.AgentTools

open AgentLoop (truncateResult MAX_TOOL_RESULT_CHARS)

def WEB_FETCH_TEXT_LIMIT : Nat := 50 * 1024

-- `argument` is int(argument), or none where it raises.
def offsetOf (argument : Option Int) : Nat :=
  (max 0 (argument.getD 0)).toNat

def maxCharsOf (argument : Option Int) : Nat :=
  (max 500 (min 8000 (argument.getD 3500))).toNat

def number (n : Nat) : List Char :=
  Nat.toDigits 10 n

def announcement (next : Nat) : List Char :=
  "offset=".toList ++ (number next ++ ")]".toList)

def capNote (capped : Bool) (text : String) : List Char :=
  if capped then text.toList else []

def chunkFooter (start stop total : Nat) : List Char :=
  "\n\n[chunk: chars ".toList ++ (number start ++ '-' :: (number stop ++ (" of total ".toList ++
    number total)))

-- `url` is repr(url).
def moreFooter (url : List Char) (start stop total : Nat) (capped : Bool) : List Char :=
  chunkFooter start stop total ++ (capNote capped " — note: source was 50KB-capped" ++
    (". To get the next chunk, call: WebFetch(url=".toList ++ (url ++ (", ".toList ++
      announcement stop))))

def endFooter (start stop total : Nat) (capped : Bool) : List Char :=
  chunkFooter start stop total ++ (capNote capped " (source was 50KB-capped)" ++
    " — END]".toList)

-- What tool_web_fetch returns. `note` is what stands behind the chunk, and `next` the offset
-- that it announces.
structure WebReply where
  body : List Char
  note : List Char
  next : Option Nat
  deriving DecidableEq

def WebReply.text (reply : WebReply) : List Char :=
  reply.body ++ reply.note

def pastEnd (offset total : Nat) (capped : Bool) : List Char :=
  "(offset ".toList ++ (number offset ++ (" is past end of document; total ".toList ++
    (number total ++ (" chars".toList ++ (capNote capped " — note: hit 50KB cap" ++ [')'])))))

-- The end of tool_web_fetch, for a page that has been fetched without a prompt.
def pageReply (url page : List Char) (offset maxChars : Option Int) : WebReply :=
  let capped := decide (WEB_FETCH_TEXT_LIMIT < page.length)
  let text := page.take WEB_FETCH_TEXT_LIMIT
  let total := text.length
  let start := offsetOf offset
  if total = 0 then ⟨[], "(empty response)".toList, none⟩
  else if total ≤ start then ⟨[], pastEnd start total capped, none⟩
  else
    let stop := min (start + maxCharsOf maxChars) total
    let chunk := (text.take stop).drop start
    if stop < total then ⟨chunk, moreFooter url start stop total capped, some stop⟩
    else if 0 < start ∨ capped then ⟨chunk, endFooter start stop total capped, none⟩
    else ⟨chunk, [], none⟩

section Spec

-- A result as the loop gives it to the model.
def deliver (text : List Char) : List Char :=
  (truncateResult (String.ofList text)).toList

def half : Nat := MAX_TOOL_RESULT_CHARS / 2

-- What is left of the chunk when the middle of the result is dropped.
def WebReply.reaching (reply : WebReply) : List Char :=
  if MAX_TOOL_RESULT_CHARS < reply.text.length then
    reply.body.take half ++ reply.body.drop (reply.text.length - half)
  else reply.body

-- The offset that the model can read at the end of what it is given.
def WebReply.announced (reply : WebReply) : Option Nat :=
  reply.next.filter fun next => decide (announcement next <:+ deliver reply.text)

-- The model asks for the page, and then for what each reply announces. It asks at most as often
-- as it has fuel.
def followFrom (url page : List Char) (maxChars : Option Int) : Nat → Nat → Option (List WebReply)
  | 0, _ => none
  | fuel + 1, offset =>
      let reply := pageReply url page (some (offset : Int)) maxChars
      match reply.announced with
      | none => some [reply]
      | some next => (followFrom url page maxChars fuel next).map (reply :: ·)

-- The process ends, and the chunks are the page.
def Complete (url page : List Char) (maxChars : Option Int) : Prop :=
  ∃ fuel replies, followFrom url page maxChars fuel 0 = some replies ∧
    replies.flatMap WebReply.reaching = page

@[irreducible] def width (n : Nat) : Nat := (number n).length

-- With chunks of `size` characters and a URL of `quoted` characters, the last reply that
-- announces another one is not cut, and neither is the only reply.
def FitsLimit (quoted total size : Nat) : Prop :=
  let stop := (total - 1) / size * size
  size ≤ half ∨ (total ≤ size ∧ total ≤ MAX_TOOL_RESULT_CHARS) ∨
    (size < total ∧
      size + 82 + width (stop - size) + 2 * width stop + width total + quoted ≤
        MAX_TOOL_RESULT_CHARS)

end Spec

section Width

theorem length_number (n : Nat) : (number n).length = width n := by
  unfold width
  rfl

theorem width_le_iff {n k : Nat} (hk : 0 < k) : width n ≤ k ↔ n < 10 ^ k := by
  rw [← length_number]
  exact Nat.length_toDigits_le_iff (by decide) hk

theorem width_pos (n : Nat) : 0 < width n := by
  rw [← length_number]
  exact Nat.length_toDigits_pos

theorem width_mono {n m : Nat} (h : n ≤ m) : width n ≤ width m := by
  have hm : m < 10 ^ width m := (width_le_iff (width_pos m)).mp (Nat.le_refl _)
  exact (width_le_iff (width_pos m)).mpr (h.trans_lt hm)

theorem width_le_five {n : Nat} (h : n ≤ WEB_FETCH_TEXT_LIMIT) : width n ≤ 5 :=
  (width_le_iff (by decide)).mpr (h.trans_lt (by decide : WEB_FETCH_TEXT_LIMIT < 10 ^ 5))

theorem length_chunkFooter (start stop total : Nat) :
    (chunkFooter start stop total).length = 27 + width start + width stop + width total := by
  unfold chunkFooter
  simp [length_number]
  omega

theorem length_announcement (next : Nat) : (announcement next).length = 9 + width next := by
  unfold announcement
  simp [length_number]
  omega

theorem length_moreFooter (url : List Char) (start stop total : Nat) :
    (moreFooter url start stop total false).length =
      82 + width start + 2 * width stop + width total + url.length := by
  unfold moreFooter capNote
  simp [length_chunkFooter, length_announcement]
  omega

theorem length_endFooter (start stop total : Nat) :
    (endFooter start stop total false).length =
      34 + width start + width stop + width total := by
  unfold endFooter capNote
  simp [length_chunkFooter]
  omega

end Width

section Delivery

variable {text tail : List Char} {reply : WebReply}

theorem deliver_eq (text : List Char) :
    (text.length ≤ MAX_TOOL_RESULT_CHARS ∧ deliver text = text) ∨
      (MAX_TOOL_RESULT_CHARS < text.length ∧ ∃ notice, deliver text =
        text.take half ++ (notice ++ text.drop (text.length - half))) := by
  unfold deliver truncateResult half
  dsimp only
  rw [String.toList_ofList]
  split_ifs with hlong
  · refine Or.inr ⟨hlong, ?_⟩
    simp only [String.toList_append, String.toList_ofList, List.append_assoc]
    refine ⟨"\n[... ".toList ++ ((toString (text.length - MAX_TOOL_RESULT_CHARS)).toList ++
      " chars omitted (middle truncated to preserve head+tail) ...]\n".toList), ?_⟩
    simp only [List.append_assoc]
  · exact Or.inl ⟨Nat.not_lt.mp hlong, String.toList_ofList⟩

-- A short end of a result is not cut off.
theorem suffix_deliver (hshort : tail.length ≤ half) (h : tail <:+ text) :
    tail <:+ deliver text := by
  rcases deliver_eq text with ⟨-, heq⟩ | ⟨hlong, notice, heq⟩
  · rwa [heq]
  · have hkept : tail <:+ text.drop (text.length - half) :=
      List.suffix_of_suffix_length_le h (List.drop_suffix _ _) (by
        rw [List.length_drop]
        have := h.length_le
        omega)
    rw [heq, ← List.append_assoc]
    exact hkept.trans (List.suffix_append _ _)

-- What reaches the model is part of what it is given, before and behind the cut.
theorem deliver_reply (reply : WebReply) :
    ∃ front inner back tail, reply.reaching = front ++ back ∧
      deliver reply.text = front ++ (inner ++ (back ++ tail)) := by
  unfold WebReply.reaching
  rcases deliver_eq reply.text with ⟨hshort, heq⟩ | ⟨hlong, notice, heq⟩
  · rw [heq, if_neg (Nat.not_lt.mpr hshort)]
    exact ⟨reply.body, [], [], reply.note, (List.append_nil _).symm, rfl⟩
  · rw [heq, if_pos hlong]
    refine ⟨reply.body.take half, reply.note.take (half - reply.body.length) ++ notice,
      reply.body.drop (reply.text.length - half),
      reply.note.drop (reply.text.length - half - reply.body.length), rfl, ?_⟩
    rw [WebReply.text, List.take_append, List.drop_append]
    simp only [List.append_assoc]

theorem length_reaching_le (reply : WebReply) : reply.reaching.length ≤ reply.body.length := by
  unfold WebReply.reaching
  split_ifs with hlong
  · have hhalf : 2 * half = MAX_TOOL_RESULT_CHARS := by decide
    rw [List.length_append, List.length_take, List.length_drop]
    omega
  · exact Nat.le_refl _

-- A chunk reaches the model if the result is not cut or the cut is behind the chunk.
theorem reaching_eq_iff :
    reply.reaching = reply.body ↔
      reply.body.length ≤ half ∨ reply.text.length ≤ MAX_TOOL_RESULT_CHARS := by
  have hhalf : 2 * half = MAX_TOOL_RESULT_CHARS := by decide
  unfold WebReply.reaching
  split_ifs with hlong
  · rw [or_iff_left (Nat.not_le.mpr hlong)]
    constructor
    · intro h
      have hlength := congrArg List.length h
      rw [List.length_append, List.length_take, List.length_drop] at hlength
      by_contra hlonger
      have hbody : reply.body.length ≤ reply.text.length := by
        unfold WebReply.text
        rw [List.length_append]
        omega
      omega
    · intro hshort
      rw [List.take_of_length_le hshort, List.drop_eq_nil_of_le (by omega), List.append_nil]
  · exact iff_of_true rfl (Or.inr (Nat.not_lt.mp hlong))

end Delivery

section Chunks

variable {url page : List Char} {maxChars : Option Int} {size start : Nat}

theorem maxCharsOf_pos (maxChars : Option Int) : 0 < maxCharsOf maxChars := by
  unfold maxCharsOf
  omega

-- The reply for a page below the cap, from an offset inside it.
def chunkReply (url page : List Char) (size start : Nat) : WebReply :=
  let stop := min (start + size) page.length
  let chunk := (page.take stop).drop start
  if stop < page.length then ⟨chunk, moreFooter url start stop page.length false, some stop⟩
  else if 0 < start then ⟨chunk, endFooter start stop page.length false, none⟩
  else ⟨chunk, [], none⟩

theorem pageReply_eq (hlimit : page.length ≤ WEB_FETCH_TEXT_LIMIT) (hstart : start < page.length) :
    pageReply url page (some (start : Int)) maxChars =
      chunkReply url page (maxCharsOf maxChars) start := by
  have hcapped : decide (WEB_FETCH_TEXT_LIMIT < page.length) = false :=
    decide_eq_false (Nat.not_lt.mpr hlimit)
  have hoffset : offsetOf (some (start : Int)) = start := by
    simp [offsetOf]
  have hempty : page.length ≠ 0 := by omega
  have hinside : ¬ page.length ≤ start := Nat.not_le.mpr hstart
  unfold pageReply
  dsimp only
  rw [List.take_of_length_le hlimit, hcapped, hoffset, if_neg hempty, if_neg hinside]
  simp only [Bool.false_eq_true, or_false]
  rfl

theorem body_chunkReply (url page : List Char) (size start : Nat) :
    (chunkReply url page size start).body = (page.drop start).take size := by
  have hchunk : (page.take (min (start + size) page.length)).drop start =
      (page.drop start).take size := by
    rw [List.drop_take]
    by_cases hle : start + size ≤ page.length
    · rw [Nat.min_eq_left hle, Nat.add_sub_cancel_left]
    · rw [Nat.min_eq_right (by omega), List.take_of_length_le (by simp),
        List.take_of_length_le (by rw [List.length_drop]; omega)]
  rw [← hchunk]
  unfold chunkReply
  dsimp only
  split_ifs <;> rfl

theorem next_chunkReply (url page : List Char) (size start : Nat) :
    (chunkReply url page size start).next =
      if start + size < page.length then some (start + size) else none := by
  unfold chunkReply
  dsimp only
  by_cases hmore : start + size < page.length
  · rw [Nat.min_eq_left hmore.le, if_pos hmore, if_pos hmore]
  · rw [if_neg hmore, if_neg (by omega)]
    split_ifs <;> rfl

-- The announcement stands at the end, where no cut reaches it.
theorem announced_chunkReply (hlimit : page.length ≤ WEB_FETCH_TEXT_LIMIT) :
    (chunkReply url page size start).announced =
      if start + size < page.length then some (start + size) else none := by
  unfold WebReply.announced
  rw [next_chunkReply]
  by_cases hmore : start + size < page.length
  · rw [if_pos hmore, Option.filter_some, if_pos]
    rw [decide_eq_true_eq]
    apply suffix_deliver
    · have hwidth : width (start + size) ≤ 5 := width_le_five (hmore.le.trans hlimit)
      have hhalf : half = 2000 := by decide
      rw [length_announcement]
      omega
    · have htext : (chunkReply url page size start).text =
          (page.take (start + size)).drop start ++
            moreFooter url start (start + size) page.length false := by
        unfold chunkReply WebReply.text
        rw [Nat.min_eq_left hmore.le, if_pos hmore]
      rw [htext]
      unfold moreFooter
      simp only [← List.append_assoc]
      exact List.suffix_append _ _
  · rw [if_neg hmore]
    rfl

-- The replies that follow an offset are those for every `size` characters, and their chunks are
-- the rest of the page.
theorem exists_follow (hlimit : page.length ≤ WEB_FETCH_TEXT_LIMIT) (hstart : start < page.length) :
    ∃ fuel replies, followFrom url page maxChars fuel start = some replies ∧
      replies.flatMap WebReply.body = page.drop start ∧
      ∀ P : WebReply → Prop, (∀ reply ∈ replies, P reply) ↔
        ∀ k, start + k * maxCharsOf maxChars < page.length →
          P (chunkReply url page (maxCharsOf maxChars) (start + k * maxCharsOf maxChars)) := by
  have hpos := maxCharsOf_pos maxChars
  generalize hsize : maxCharsOf maxChars = size at hpos
  induction hleft : page.length - start using Nat.strong_induction_on generalizing start with
  | _ left ih =>
      have hreply : pageReply url page (some (start : Int)) maxChars =
          chunkReply url page size start := by rw [pageReply_eq hlimit hstart, hsize]
      have hannounced : (chunkReply url page size start).announced =
          if start + size < page.length then some (start + size) else none :=
        announced_chunkReply hlimit
      by_cases hmore : start + size < page.length
      · rw [if_pos hmore] at hannounced
        obtain ⟨fuel, replies, hfollow, hbodies, hall⟩ :=
          ih (page.length - (start + size)) (by omega) hmore rfl
        refine ⟨fuel + 1, chunkReply url page size start :: replies, ?_, ?_, ?_⟩
        · rw [followFrom]
          rw [hreply, hannounced]
          dsimp only
          rw [hfollow]
          rfl
        · rw [List.flatMap_cons, hbodies, body_chunkReply, ← List.drop_drop,
            List.take_append_drop]
        · intro P
          rw [List.forall_mem_cons, hall P]
          constructor
          · rintro ⟨hfirst, hrest⟩ k hk
            cases k with
            | zero => simpa using hfirst
            | succ k =>
                have heq : start + (k + 1) * size = start + size + k * size := by
                  rw [Nat.succ_mul]
                  omega
                rw [heq] at hk ⊢
                exact hrest k hk
          · intro h
            refine ⟨by simpa using h 0 (by simpa using hstart), fun k hk => ?_⟩
            have heq : start + size + k * size = start + (k + 1) * size := by
              rw [Nat.succ_mul]
              omega
            rw [heq] at hk ⊢
            exact h (k + 1) hk
      · rw [if_neg hmore] at hannounced
        refine ⟨1, [chunkReply url page size start], ?_, ?_, ?_⟩
        · rw [followFrom]
          rw [hreply, hannounced]
        · rw [List.flatMap_cons, List.flatMap_nil, List.append_nil, body_chunkReply,
            List.take_of_length_le (by rw [List.length_drop]; omega)]
        · intro P
          rw [List.forall_mem_singleton]
          constructor
          · intro hfirst k hk
            cases k with
            | zero => simpa using hfirst
            | succ k =>
                rw [Nat.succ_mul] at hk
                omega
          · intro h
            simpa using h 0 (by simpa using hstart)

-- More fuel does not change where the process ends.
theorem follow_unique {fuel more : Nat} {replies others : List WebReply}
    (h : followFrom url page maxChars fuel start = some replies)
    (hmore : followFrom url page maxChars more start = some others) : replies = others := by
  induction fuel generalizing more start replies others with
  | zero => cases h
  | succ fuel ih =>
      cases more with
      | zero => cases hmore
      | succ more =>
          rw [followFrom] at h hmore
          split at h
          · next hlast =>
            rw [hlast] at hmore
            exact Option.some.inj (h.symm.trans hmore)
          · next next hnext =>
            rw [hnext] at hmore
            obtain ⟨rest, hrest, rfl⟩ := Option.map_eq_some_iff.mp h
            obtain ⟨tail, htail, rfl⟩ := Option.map_eq_some_iff.mp hmore
            rw [ih hrest htail]

end Chunks

section Completeness

variable {url page : List Char} {maxChars : Option Int} {size start : Nat}

-- Where no part is longer than its place, the wholes are the same if the parts are.
theorem flatMap_eq_iff {α β : Type*} {f g : α → List β} {items : List α}
    (hle : ∀ item ∈ items, (f item).length ≤ (g item).length) :
    items.flatMap f = items.flatMap g ↔ ∀ item ∈ items, f item = g item := by
  constructor
  · intro h
    induction items with
    | nil => intro item hmem; cases hmem
    | cons item rest ih =>
        rw [List.forall_mem_cons] at hle ⊢
        have hrest : (rest.flatMap f).length ≤ (rest.flatMap g).length := by
          rw [List.length_flatMap, List.length_flatMap]
          exact List.sum_le_sum hle.2
        rw [List.flatMap_cons, List.flatMap_cons] at h
        have hlength := congrArg List.length h
        rw [List.length_append, List.length_append] at hlength
        obtain ⟨hitem, htail⟩ := List.append_inj h (by have := hle.1; omega)
        exact ⟨hitem, ih hle.2 htail⟩
  · exact List.flatMap_congr

theorem complete_iff (hlimit : page.length ≤ WEB_FETCH_TEXT_LIMIT) (hpage : 0 < page.length) :
    Complete url page maxChars ↔ ∀ k, k * maxCharsOf maxChars < page.length →
      (chunkReply url page (maxCharsOf maxChars) (k * maxCharsOf maxChars)).reaching =
        (chunkReply url page (maxCharsOf maxChars) (k * maxCharsOf maxChars)).body := by
  obtain ⟨fuel, replies, hfollow, hbodies, hall⟩ := @exists_follow url page maxChars 0 hlimit hpage
  have hchunks := hall fun reply => reply.reaching = reply.body
  simp only [Nat.zero_add] at hchunks
  rw [← hchunks, ← flatMap_eq_iff fun reply _ => length_reaching_le reply, hbodies, List.drop_zero]
  constructor
  · rintro ⟨more, others, hothers, hpage⟩
    rwa [follow_unique hfollow hothers]
  · intro h
    exact ⟨fuel, replies, hfollow, h⟩

theorem length_body (url page : List Char) (size start : Nat) :
    (chunkReply url page size start).body.length = min size (page.length - start) := by
  rw [body_chunkReply, List.length_take, List.length_drop]

theorem length_text_more (h : start + size < page.length) :
    (chunkReply url page size start).text.length =
      size + 82 + width start + 2 * width (start + size) + width page.length + url.length := by
  have hnote : (chunkReply url page size start).note =
      moreFooter url start (start + size) page.length false := by
    unfold chunkReply
    dsimp only
    rw [Nat.min_eq_left h.le, if_pos h]
  rw [WebReply.text, List.length_append, length_body, hnote, length_moreFooter,
    Nat.min_eq_left (by omega)]
  omega

theorem length_text_end (hstart : 0 < start) (hlast : page.length ≤ start + size) :
    (chunkReply url page size start).text.length =
      page.length - start + 34 + width start + 2 * width page.length := by
  have hnote : (chunkReply url page size start).note =
      endFooter start page.length page.length false := by
    unfold chunkReply
    dsimp only
    rw [Nat.min_eq_right hlast, if_neg (Nat.lt_irrefl _), if_pos hstart]
  rw [WebReply.text, List.length_append, length_body, hnote, length_endFooter,
    Nat.min_eq_right (by omega)]
  omega

theorem length_text_only (hlast : page.length ≤ size) :
    (chunkReply url page size 0).text.length = page.length := by
  have hnote : (chunkReply url page size 0).note = [] := by
    unfold chunkReply
    dsimp only
    rw [Nat.zero_add, Nat.min_eq_right hlast, if_neg (Nat.lt_irrefl _),
      if_neg (Nat.lt_irrefl _)]
  rw [WebReply.text, hnote, List.append_nil, length_body, Nat.sub_zero, Nat.min_eq_right hlast]

-- The reply from an offset is not cut, or cut behind its chunk.
def Passes (url page : List Char) (size start : Nat) : Prop :=
  (chunkReply url page size start).body.length ≤ half ∨
    (chunkReply url page size start).text.length ≤ MAX_TOOL_RESULT_CHARS

-- The last announced chunk has the widest footer.
theorem footer_le_last {total k : Nat} (hpos : 0 < size) (h : k * size + size < total) :
    k * size + size ≤ (total - 1) / size * size ∧
      k * size ≤ (total - 1) / size * size - size := by
  have hle : k + 1 ≤ (total - 1) / size :=
    (Nat.le_div_iff_mul_le hpos).mpr (by rw [Nat.succ_mul]; omega)
  have hmul := Nat.mul_le_mul_right size hle
  rw [Nat.succ_mul] at hmul
  omega

theorem passes_of_fits (hlimit : page.length ≤ WEB_FETCH_TEXT_LIMIT) (hpos : 0 < size)
    (hfits : FitsLimit url.length page.length size) {k : Nat} (hk : k * size < page.length) :
    Passes url page size (k * size) := by
  rcases hfits with hsmall | ⟨honly, hshort⟩ | ⟨hmany, hroom⟩
  · refine Or.inl ?_
    rw [length_body]
    exact (Nat.min_le_left _ _).trans hsmall
  · refine Or.inr ?_
    cases k with
    | zero =>
        rw [Nat.zero_mul, length_text_only honly]
        exact hshort
    | succ k =>
        rw [Nat.succ_mul] at hk
        omega
  · refine Or.inr ?_
    by_cases hmore : k * size + size < page.length
    · obtain ⟨hstop, hstart⟩ := footer_le_last hpos hmore
      have := width_mono hstop
      have := width_mono hstart
      rw [length_text_more hmore]
      omega
    · have hstart : 0 < k * size := by
        rcases Nat.eq_zero_or_pos (k * size) with hzero | hstart
        · rw [hzero] at hmore
          omega
        · exact hstart
      have := width_le_five (hk.le.trans hlimit)
      have := width_le_five hlimit
      rw [length_text_end hstart (by omega)]
      omega

theorem fits_of_passes (hpos : 0 < size) (hpage : 0 < page.length)
    (h : ∀ k, k * size < page.length → Passes url page size (k * size)) :
    FitsLimit url.length page.length size := by
  have hhalf : half = 2000 := by decide
  have hmax : MAX_TOOL_RESULT_CHARS = 4000 := by decide
  by_cases hsmall : size ≤ half
  · exact Or.inl hsmall
  refine Or.inr ?_
  by_cases honly : page.length ≤ size
  · have hfirst := h 0 (by omega)
    unfold Passes at hfirst
    rw [Nat.zero_mul, length_body, length_text_only honly, Nat.sub_zero,
      Nat.min_eq_right honly] at hfirst
    exact Or.inl ⟨honly, by omega⟩
  · have hcount : 1 ≤ (page.length - 1) / size :=
      (Nat.le_div_iff_mul_le hpos).mpr (by omega)
    obtain ⟨k, hk⟩ : ∃ k, (page.length - 1) / size = k + 1 := ⟨_, (Nat.sub_add_cancel hcount).symm⟩
    have hstop := Nat.div_mul_le_self (page.length - 1) size
    rw [hk, Nat.succ_mul] at hstop
    have hmore : k * size + size < page.length := by omega
    have hlast := h k (by omega)
    unfold Passes at hlast
    rw [length_body, length_text_more hmore] at hlast
    refine Or.inr ⟨by omega, ?_⟩
    rw [hk, Nat.succ_mul, Nat.add_sub_cancel]
    omega

theorem reaching_iff_passes (url page : List Char) (size start : Nat) :
    (chunkReply url page size start).reaching = (chunkReply url page size start).body ↔
      Passes url page size start :=
  reaching_eq_iff

-- An empty page is complete without a chunk.
theorem complete_empty (url : List Char) (maxChars : Option Int) : Complete url [] maxChars := by
  have hreply : pageReply url [] (some ((0 : Nat) : Int)) maxChars =
      ⟨[], "(empty response)".toList, none⟩ := by
    unfold pageReply
    exact if_pos rfl
  refine ⟨1, [⟨[], "(empty response)".toList, none⟩], ?_, ?_⟩
  · rw [followFrom]
    rw [hreply]
    rfl
  · rfl

-- The chunks of a page below the cap reach the model if the limits fit together.
theorem paged_fetch_complete_iff (url page : List Char) (maxChars : Option Int)
    (hlimit : page.length ≤ WEB_FETCH_TEXT_LIMIT) :
    Complete url page maxChars ↔
      FitsLimit url.length page.length (maxCharsOf maxChars) := by
  have hpos := maxCharsOf_pos maxChars
  rcases Nat.eq_zero_or_pos page.length with hempty | hpage
  · rw [List.length_eq_zero_iff] at hempty
    subst hempty
    exact iff_of_true (complete_empty url maxChars)
      (Or.inr (Or.inl ⟨Nat.zero_le _, Nat.zero_le _⟩))
  · rw [complete_iff hlimit hpage]
    simp only [reaching_iff_passes]
    exact ⟨fits_of_passes hpos hpage, fun hfits k => passes_of_fits hlimit hpos hfits⟩

-- Two chunks of 3500 characters at most, with their footer below the limit.
theorem default_chunks_complete :
    (List.replicate 5000 'x').length ≤ WEB_FETCH_TEXT_LIMIT ∧
      Complete "'http://example.com/'".toList (List.replicate 5000 'x') none := by
  have hlimit : (List.replicate 5000 'x').length ≤ WEB_FETCH_TEXT_LIMIT := by
    rw [List.length_replicate]
    decide
  refine ⟨hlimit, (paged_fetch_complete_iff _ _ none hlimit).mpr ?_⟩
  rw [List.length_replicate]
  exact Or.inr (Or.inr ⟨by decide, by decide +kernel⟩)

-- A page of 4001 characters is one chunk for a caller that asks for 8000.
theorem large_chunk_cut :
    (List.replicate 4001 'x').length ≤ WEB_FETCH_TEXT_LIMIT ∧
      ¬ Complete "'http://example.com/'".toList (List.replicate 4001 'x') (some 8000) := by
  have hlimit : (List.replicate 4001 'x').length ≤ WEB_FETCH_TEXT_LIMIT := by
    rw [List.length_replicate]
    decide
  refine ⟨hlimit, fun hcomplete => ?_⟩
  rw [complete_iff hlimit (by rw [List.length_replicate]; decide)] at hcomplete
  have hsize : maxCharsOf (some 8000) = 8000 := by decide
  have hfirst := hcomplete 0 (by rw [Nat.zero_mul, List.length_replicate]; decide)
  rw [reaching_iff_passes, hsize, Nat.zero_mul, Passes, length_body,
    length_text_only (by rw [List.length_replicate]; decide), List.length_replicate] at hfirst
  revert hfirst
  decide

end Completeness

end EvoClaw.AgentTools
