import EvoClaw.Text.Delimited

-- The search that leaves each block out, from the opening word to the first closing word.
namespace EvoClaw.Text

variable {α : Type*} [DecidableEq α] {head c : α}
  {opening closing text body before after rest word : List α} {start skip : Nat}

theorem Headed.find_append (hword : Headed head word) (h : ¬ word <:+: before)
    (after : List α) : find word (before ++ (word ++ after)) = some before.length := by
  apply Text.find_append
  obtain ⟨tail, rfl, htail⟩ := hword
  cases tail with
  | nil => simpa using h
  | cons d tail =>
      rw [List.dropLast_cons_of_ne_nil (by simp)]
      refine Headed.not_infix_append ⟨_, rfl, htail⟩ h fun hinfix => ?_
      have hlength := hinfix.length_le
      simp only [List.length_cons, List.length_dropLast] at hlength
      omega

theorem infix_iff_find : word <:+: text ↔ ∃ i, find word text = some i := by
  constructor
  · rintro ⟨left, right, rfl⟩
    obtain ⟨i, hi, -⟩ := find_le (List.append_assoc left word right)
    exact ⟨i, hi⟩
  · rintro ⟨i, hi⟩
    have hspec := find_spec hi
    exact ⟨text.take i, text.drop (i + word.length), by rw [List.append_assoc]; exact hspec.symm⟩

-- The characters outside the blocks, with their positions. The next `skip` characters belong
-- to a block.
def keptFrom (opening closing : List α) : Nat → Nat → List α → List (α × Nat)
  | _, _, [] => []
  | start, skip + 1, _ :: rest => keptFrom opening closing (start + 1) skip rest
  | start, 0, c :: rest =>
      if opening <+: c :: rest then
        match find closing ((c :: rest).drop opening.length) with
        | some i =>
            keptFrom opening closing (start + 1)
              (opening.length + i + closing.length - 1) rest
        | none => (c, start) :: keptFrom opening closing (start + 1) 0 rest
      else (c, start) :: keptFrom opening closing (start + 1) 0 rest

section Scanning

theorem keptFrom_skip (start : Nat) (text rest : List α) :
    keptFrom opening closing start text.length (text ++ rest) =
      keptFrom opening closing (start + text.length) 0 rest := by
  induction text generalizing start with
  | nil => rfl
  | cons c text ih =>
      rw [List.length_cons, List.cons_append, keptFrom, ih, Nat.add_assoc, Nat.add_comm 1]

theorem keptFrom_char (h : ¬ BlockBegins opening closing (c :: rest)) (start : Nat) :
    keptFrom opening closing start 0 (c :: rest) =
      (c, start) :: keptFrom opening closing (start + 1) 0 rest := by
  rw [keptFrom]
  split_ifs with hopens
  · split
    · next i hi => exact absurd ⟨hopens, infix_iff_find.mpr ⟨i, hi⟩⟩ h
    · rfl
  · rfl

theorem keptFrom_block (h : Delimiters head opening closing) (hbody : ¬ closing <:+: body)
    (start : Nat) (rest : List α) :
    keptFrom opening closing start 0 (opening ++ (body ++ (closing ++ rest))) =
      keptFrom opening closing (start + (opening ++ (body ++ closing)).length) 0 rest := by
  obtain ⟨tail, rfl, htail⟩ := h.opening_headed
  have hfind : find closing ((head :: tail ++ (body ++ (closing ++ rest))).drop
      (head :: tail).length) = some body.length := by
    rw [List.drop_left]
    exact h.closing_headed.find_append hbody rest
  rw [List.cons_append] at hfind ⊢
  rw [keptFrom, if_pos ⟨body ++ (closing ++ rest), rfl⟩, hfind]
  have hskip : (head :: tail).length + body.length + closing.length - 1 =
      (tail ++ (body ++ closing)).length := by
    simp only [List.length_append, List.length_cons]
    omega
  have htext : tail ++ (body ++ (closing ++ rest)) = (tail ++ (body ++ closing)) ++ rest := by
    simp
  simp only
  rw [hskip, htext, keptFrom_skip, List.cons_append, List.length_cons]
  congr 1
  omega

theorem keptFrom_of_not_closing (h : ¬ closing <:+: text) (start : Nat) :
    keptFrom opening closing start 0 text = text.zipIdx start := by
  induction text generalizing start with
  | nil => rfl
  | cons c rest ih =>
      have hrest : ¬ closing <:+: rest := fun hinfix => h (List.infix_cons hinfix)
      have hbegins : ¬ BlockBegins opening closing (c :: rest) := fun hbegins =>
        h (hbegins.2.trans (List.drop_suffix _ _).isInfix)
      rw [keptFrom_char hbegins, ih hrest, List.zipIdx_cons]

-- The search begins anew behind a text whose opening words are closed.
theorem keptFrom_append (h : Delimiters head opening closing)
    (hsettled : Settled opening closing text) (start : Nat) (rest : List α) :
    keptFrom opening closing start 0 (text ++ head :: rest) =
      keptFrom opening closing start 0 text ++
        keptFrom opening closing (start + text.length) 0 (head :: rest) := by
  induction text using h.scan_induction generalizing start with
  | nil => rfl
  | block body behind hbody ih =>
      have hbehind : Settled opening closing behind := fun before after heq =>
        hsettled (opening ++ (body ++ (closing ++ before))) after (by simp [heq])
      have htext : opening ++ (body ++ (closing ++ behind)) ++ head :: rest =
          opening ++ (body ++ (closing ++ (behind ++ head :: rest))) := by simp
      rw [htext, keptFrom_block h hbody, keptFrom_block h hbody, ih hbehind]
      congr 2
      simp only [List.length_append]
      omega
  | char c behind hbegins ih =>
      have hbehind : Settled opening closing behind := fun before after heq =>
        hsettled (c :: before) after (by rw [heq]; rfl)
      have hnone : ¬ BlockBegins opening closing (c :: (behind ++ head :: rest)) := by
        rintro ⟨⟨after, hafter⟩, -⟩
        have heq : (c :: behind) ++ head :: rest = [] ++ (opening ++ after) := hafter.symm
        rcases h.opening_headed.side heq with ⟨between, hbetween⟩ | ⟨between, hnil, -⟩
        · rw [List.nil_append] at hbetween
          have hclosed := hsettled [] between hbetween
          exact hbegins ⟨⟨between, hbetween.symm⟩, by rwa [hbetween, List.drop_left]⟩
        · cases hnil
      rw [List.cons_append, keptFrom_char hnone, keptFrom_char hbegins, ih hbehind,
        List.cons_append, List.length_cons, Nat.add_assoc, Nat.add_comm 1]

theorem le_of_mem_keptFrom (h : Delimiters head opening closing) {entry : α × Nat}
    (hkept : entry ∈ keptFrom opening closing start 0 text) : start ≤ entry.2 := by
  induction text using h.scan_induction generalizing start with
  | nil => exact nomatch hkept
  | block body rest hbody ih =>
      rw [keptFrom_block h hbody] at hkept
      exact Nat.le_trans (Nat.le_add_right _ _) (ih hkept)
  | char c rest hbegins ih =>
      rw [keptFrom_char hbegins] at hkept
      rcases List.mem_cons.mp hkept with rfl | hrest
      · exact Nat.le_refl _
      · exact Nat.le_of_succ_le (ih hrest)

-- Of a block without another closing word, nothing is kept.
theorem kept_outside_block (h : Delimiters head opening closing) (hbody : ¬ closing <:+: body)
    {entry : α × Nat} (heq : text = before ++ (opening ++ (body ++ (closing ++ after))))
    (hkept : entry ∈ keptFrom opening closing start 0 text) :
    entry.2 < start + before.length ∨
      start + before.length + (opening ++ (body ++ closing)).length ≤ entry.2 := by
  induction text using h.scan_induction generalizing start before with
  | nil =>
      have hlength := congrArg List.length heq
      have hpos := List.length_pos_iff.mpr h.opening_headed.ne_nil
      simp only [List.length_nil, List.length_append] at hlength
      omega
  | block first rest hfirst ih =>
      rw [keptFrom_block h hfirst] at hkept
      have hfrom := le_of_mem_keptFrom h hkept
      have heq' : [] ++ (opening ++ (first ++ (closing ++ rest))) =
          before ++ (opening ++ (body ++ (closing ++ after))) := heq
      rcases h.opening_headed.around h.opening_headed heq' with
        ⟨between, hnil⟩ | ⟨rfl, hsame⟩ | ⟨between, rfl, hbetween⟩
      · have hlength := congrArg List.length hnil
        have hpos := List.length_pos_iff.mpr h.opening_headed.ne_nil
        simp only [List.length_nil, List.length_append] at hlength
        omega
      · obtain ⟨rfl, -⟩ := h.first_closing hfirst hbody (List.append_cancel_left hsame)
        exact Or.inr hfrom
      · rcases h.opening_headed.around h.closing_headed hbetween with
          ⟨inner, hinner⟩ | ⟨-, hsame⟩ | ⟨behind, rfl, hbehind⟩
        · -- the block lies at the end of the one that is taken
          rw [hinner] at hbetween hfirst
          have hnone : ¬ closing <:+: inner := fun hinner' =>
            hfirst <| hinner'.trans ⟨between ++ opening, [], by simp⟩
          have hcancel : inner ++ (closing ++ rest) = body ++ (closing ++ after) := by
            simpa using hbetween
          obtain ⟨rfl, -⟩ := h.first_closing hnone hbody hcancel
          right
          rw [hinner] at hfrom
          simp only [List.length_append, List.nil_append] at hfrom ⊢
          omega
        · exact absurd hsame.symm (h.append_ne _ _)
        · have hrest := ih hbehind hkept
          simp only [List.length_append, List.nil_append] at hrest ⊢
          omega
  | char c rest hbegins ih =>
      rw [keptFrom_char hbegins] at hkept
      cases before with
      | nil =>
          rw [List.nil_append] at heq
          rw [heq] at hbegins
          exact absurd (blockBegins_block opening body closing after) hbegins
      | cons d before =>
          rw [List.cons_append, List.cons.injEq] at heq
          rcases List.mem_cons.mp hkept with rfl | hrest
          · left
            simp only [List.length_cons]
            omega
          · have hlater := ih heq.2 hrest
            simp only [List.length_cons] at hlater ⊢
            omega

-- Of a block with another one in it, the end is kept.
theorem kept_of_nested (h : Delimiters head opening closing)
    (hbalanced : Balanced opening closing body) (hnested : opening <:+: body)
    (before after : List α) :
    (head, (before ++ (opening ++ body)).length) ∈ keptFrom opening closing 0 0
      (before ++ (opening ++ (body ++ (closing ++ after)))) := by
  have hclosing : closing <:+: body := by
    by_contra hnone
    exact hbalanced.not_opening hnone hnested
  obtain ⟨left, right, rfl, hright⟩ := hbalanced.last_closing hclosing
  have hsettled : Settled opening closing (before ++ (opening ++ left) ++ (closing ++ right)) :=
    h.settled_of_closing (settled_of_not_opening hright) _
  obtain ⟨tail, htail, -⟩ := h.closing_headed
  have hbegins : ¬ BlockBegins opening closing (head :: (tail ++ after)) := by
    rintro ⟨⟨behind, hbehind⟩, -⟩
    exact h.append_ne behind after (by rw [htail]; exact hbehind)
  have htext : before ++ (opening ++ (left ++ (closing ++ right) ++ (closing ++ after))) =
      (before ++ (opening ++ left) ++ (closing ++ right)) ++ head :: (tail ++ after) := by
    have hlast : closing ++ after = head :: (tail ++ after) := by rw [htail]; rfl
    rw [hlast]
    simp
  rw [htext, keptFrom_append h hsettled, keptFrom_char hbegins]
  refine List.mem_append_right _ (List.mem_cons.mpr (Or.inl ?_))
  simp

end Scanning

section Removing

def withoutBlocks (opening closing text : List α) : List α :=
  (keptFrom opening closing 0 0 text).map Prod.fst

theorem map_fst_keptFrom (start other skip : Nat) (text : List α) :
    (keptFrom opening closing start skip text).map Prod.fst =
      (keptFrom opening closing other skip text).map Prod.fst := by
  induction text generalizing start other skip with
  | nil => rfl
  | cons c rest ih =>
      cases skip with
      | succ skip => exact ih (start + 1) (other + 1) skip
      | zero =>
          simp only [keptFrom]
          split_ifs
          · split
            · exact ih _ _ _
            · rw [List.map_cons, List.map_cons, ih (start + 1) (other + 1)]
          · rw [List.map_cons, List.map_cons, ih (start + 1) (other + 1)]

theorem withoutBlocks_char (h : ¬ BlockBegins opening closing (c :: rest)) :
    withoutBlocks opening closing (c :: rest) = c :: withoutBlocks opening closing rest := by
  rw [withoutBlocks, keptFrom_char h, List.map_cons, map_fst_keptFrom _ 0]
  rfl

theorem withoutBlocks_block (h : Delimiters head opening closing) (hbody : ¬ closing <:+: body)
    (rest : List α) :
    withoutBlocks opening closing (opening ++ (body ++ (closing ++ rest))) =
      withoutBlocks opening closing rest := by
  rw [withoutBlocks, keptFrom_block h hbody, map_fst_keptFrom _ 0]
  rfl

theorem withoutBlocks_append (h : Delimiters head opening closing)
    (hsettled : Settled opening closing text) (rest : List α) :
    withoutBlocks opening closing (text ++ head :: rest) =
      withoutBlocks opening closing text ++ withoutBlocks opening closing (head :: rest) := by
  rw [withoutBlocks, keptFrom_append h hsettled, List.map_append, map_fst_keptFrom (0 + _) 0]
  rfl

theorem closing_of_withoutBlocks (hclosing : closing <:+: withoutBlocks opening closing text) :
    closing <:+: text := by
  by_contra hnone
  rw [withoutBlocks, keptFrom_of_not_closing hnone, List.zipIdx_map_fst] at hclosing
  exact hnone hclosing

theorem withoutBlocks_of_not_hasBlock (h : Delimiters head opening closing)
    (hnone : ¬ HasBlock opening closing text) : withoutBlocks opening closing text = text := by
  induction text using h.scan_induction with
  | nil => rfl
  | block body rest _ _ => exact absurd ⟨[], body, rest, rfl⟩ hnone
  | char c rest hbegins ih =>
      rw [withoutBlocks_char hbegins, ih]
      rintro ⟨before, body, after, rfl⟩
      exact hnone ⟨c :: before, body, after, rfl⟩

theorem Blocks.withoutBlocks (h : Delimiters head opening closing) {blocks : List α}
    (hblocks : Blocks opening closing blocks) (rest : List α) :
    withoutBlocks opening closing (blocks ++ rest) = withoutBlocks opening closing rest := by
  induction hblocks with
  | nil => rfl
  | @cons body behind hbody _ ih =>
      have htext : opening ++ (body ++ (closing ++ behind)) ++ rest =
          opening ++ (body ++ (closing ++ (behind ++ rest))) := by simp
      rw [htext, withoutBlocks_block h hbody, ih]

-- Behind its first character, a word that is spread over blocks is kept.
theorem Spread.withoutBlocks_of_notMem (h : Delimiters head opening closing) {broken : List α}
    (hspread : Spread opening closing word broken) (hword : head ∉ word) (rest : List α) :
    withoutBlocks opening closing (broken ++ rest) =
      word ++ withoutBlocks opening closing rest := by
  have hchar : ∀ {c behind}, c ≠ head →
      ¬ BlockBegins opening closing (c :: behind) := by
    rintro c behind hne ⟨⟨more, hmore⟩, -⟩
    obtain ⟨tail, rfl, -⟩ := h.opening_headed
    exact hne (List.cons.inj hmore).1.symm
  induction hspread with
  | last c =>
      have hc : c ≠ head := fun heq => hword (by simp [heq])
      exact withoutBlocks_char (hchar hc)
  | @cons blocks word text c hblocks _ ih =>
      have hc : c ≠ head := fun heq => hword (by simp [heq])
      have htail : head ∉ word := fun hmem => hword (List.mem_cons_of_mem c hmem)
      rw [List.cons_append, withoutBlocks_char (hchar hc), List.append_assoc,
        hblocks.withoutBlocks h, ih htail, List.cons_append]

theorem Spread.withoutBlocks (h : Delimiters head opening closing) {broken : List α}
    (hspread : Spread opening closing word broken) (hword : Headed head word) {rest : List α}
    (hbegins : ¬ opening <+: broken ++ rest) :
    withoutBlocks opening closing (broken ++ rest) =
      word ++ withoutBlocks opening closing rest := by
  obtain ⟨tail, heq, htail⟩ := hword
  cases hspread with
  | last c => exact withoutBlocks_char fun hblock => hbegins hblock.1
  | @cons blocks word text c hblocks hspread =>
      obtain ⟨rfl, rfl⟩ := List.cons.inj heq
      rw [List.cons_append] at hbegins ⊢
      rw [withoutBlocks_char fun hblock => hbegins hblock.1, List.append_assoc,
        hblocks.withoutBlocks h, hspread.withoutBlocks_of_notMem h htail, List.cons_append]

-- Where a kept character with a closing word behind it comes from.
theorem withoutBlocks_split (h : Delimiters head opening closing) {left right : List α}
    (heq : withoutBlocks opening closing text = left ++ c :: right)
    (hclosing : closing <:+: c :: right) :
    ∃ before after, text = before ++ c :: after ∧ Settled opening closing before ∧
      ¬ BlockBegins opening closing (c :: after) ∧
      withoutBlocks opening closing after = right := by
  have hnil : Settled opening closing [] := settled_of_not_opening fun hinfix =>
    h.opening_headed.ne_nil (List.infix_nil.mp hinfix)
  induction text using h.scan_induction generalizing left with
  | nil => simp [withoutBlocks, keptFrom] at heq
  | block body rest hbody ih =>
      rw [withoutBlocks_block h hbody] at heq
      obtain ⟨before, after, rfl, hsettled, hrest⟩ := ih heq
      have hblock := h.settled_of_closing hsettled (opening ++ body)
      exact ⟨opening ++ body ++ (closing ++ before), after, by simp, hblock, hrest⟩
  | char d rest hbegins ih =>
      rw [withoutBlocks_char hbegins] at heq
      cases left with
      | nil =>
          obtain ⟨rfl, rfl⟩ := List.cons.inj heq
          exact ⟨[], rest, rfl, hnil, hbegins, rfl⟩
      | cons e left =>
          rw [List.cons_append, List.cons.injEq] at heq
          obtain ⟨rfl, hkept⟩ := heq
          obtain ⟨before, after, rfl, hsettled, hchar, hafter⟩ := ih hkept
          refine ⟨d :: before, after, rfl, fun first behind hfirst => ?_, hchar, hafter⟩
          cases first with
          | cons e first => exact hsettled first behind (List.cons.inj hfirst).2
          | nil =>
              -- a closing word behind the opening one would have taken it
              have hkept : closing <:+: withoutBlocks opening closing (c :: after) := by
                rwa [withoutBlocks_char hchar, hafter]
              have hbehind := closing_of_withoutBlocks hkept
              have htext : d :: (before ++ c :: after) = opening ++ (behind ++ c :: after) := by
                have hcons := congrArg (· ++ c :: after) hfirst
                simpa using hcons
              rw [htext] at hbegins
              refine absurd ⟨List.prefix_append opening _, ?_⟩ hbegins
              rw [List.drop_left]
              exact hbehind.trans (List.suffix_append behind _).isInfix

theorem withoutBlocks_cons (h : Delimiters head opening closing) {right : List α}
    (heq : withoutBlocks opening closing text = c :: right) :
    ∃ blocks after, text = blocks ++ c :: after ∧ Blocks opening closing blocks ∧
      withoutBlocks opening closing after = right := by
  induction text using h.scan_induction with
  | nil => simp [withoutBlocks, keptFrom] at heq
  | block body rest hbody ih =>
      rw [withoutBlocks_block h hbody] at heq
      obtain ⟨blocks, after, rfl, hblocks, hafter⟩ := ih heq
      exact ⟨opening ++ (body ++ (closing ++ blocks)), after, by simp, hblocks.cons hbody, hafter⟩
  | char d rest hbegins _ =>
      rw [withoutBlocks_char hbegins] at heq
      obtain ⟨rfl, rfl⟩ := List.cons.inj heq
      exact ⟨[], rest, rfl, Blocks.nil, rfl⟩

theorem spread_of_withoutBlocks (h : Delimiters head opening closing) {right : List α}
    (heq : withoutBlocks opening closing text = word ++ right) :
    ∃ broken after, c :: text = broken ++ after ∧ Spread opening closing (c :: word) broken ∧
      withoutBlocks opening closing after = right := by
  induction word generalizing text c with
  | nil => exact ⟨[c], text, rfl, Spread.last c, heq⟩
  | cons d word ih =>
      obtain ⟨blocks, behind, rfl, hblocks, hbehind⟩ := withoutBlocks_cons h heq
      obtain ⟨broken, after, hbroken, hspread, hafter⟩ := ih (c := d) hbehind
      exact ⟨c :: (blocks ++ broken), after, by simp [hbroken], hspread.cons c hblocks, hafter⟩

theorem joinsBlock_of_hasBlock (h : Delimiters head opening closing)
    (hblock : HasBlock opening closing (withoutBlocks opening closing text)) :
    JoinsBlock opening closing text := by
  obtain ⟨left, body, right, heq⟩ := hblock
  obtain ⟨openingTail, hopeningTail, -⟩ := h.opening_headed
  obtain ⟨closingTail, hclosingTail, -⟩ := h.closing_headed
  have hbehind : closing <:+: body ++ (closing ++ right) :=
    ⟨body, right, List.append_assoc body closing right⟩
  have hfirst : withoutBlocks opening closing text =
      left ++ head :: (openingTail ++ (body ++ (closing ++ right))) := by
    rw [heq, hopeningTail]
    rfl
  obtain ⟨before, after, rfl, hsettled, hchar, hafter⟩ := withoutBlocks_split h hfirst
    (hbehind.trans (List.infix_cons (List.suffix_append openingTail _).isInfix))
  obtain ⟨broken, behind, hbroken, hspread, hrest⟩ :
      ∃ broken behind, head :: after = broken ++ behind ∧
        Spread opening closing (head :: openingTail) broken ∧
        withoutBlocks opening closing behind = body ++ (closing ++ right) :=
    spread_of_withoutBlocks h hafter
  rw [← hopeningTail] at hspread
  have hkept : closing <:+: withoutBlocks opening closing behind := by rwa [hrest]
  have hlater := closing_of_withoutBlocks hkept
  have hne : broken ≠ opening := by
    rintro rfl
    refine hchar ⟨⟨behind, hbroken.symm⟩, ?_⟩
    rw [hbroken, List.drop_left]
    exact hlater
  have hsecond : withoutBlocks opening closing behind =
      body ++ head :: (closingTail ++ right) := by
    rw [hrest, hclosingTail]
    rfl
  have hclosing : closing <:+: head :: (closingTail ++ right) :=
    ⟨[], right, by rw [hclosingTail]; rfl⟩
  obtain ⟨between, last, rfl, hbetween, -, hlast⟩ := withoutBlocks_split h hsecond hclosing
  obtain ⟨brokenLast, afterwards, heqLast, hspreadLast, -⟩ :
      ∃ brokenLast afterwards, head :: last = brokenLast ++ afterwards ∧
        Spread opening closing (head :: closingTail) brokenLast ∧
        withoutBlocks opening closing afterwards = right :=
    spread_of_withoutBlocks h hlast
  rw [← hclosingTail] at hspreadLast
  refine ⟨before, broken, between, brokenLast, afterwards, ?_, hsettled, hspread, hne, hbetween,
    hspreadLast⟩
  rw [hbroken, heqLast]

theorem hasBlock_of_joinsBlock (h : Delimiters head opening closing)
    (hjoins : JoinsBlock opening closing text) :
    HasBlock opening closing (withoutBlocks opening closing text) := by
  obtain ⟨before, broken, between, last, after, rfl, hsettled, hspread, hne, hbetween,
    hspreadLast⟩ := hjoins
  obtain ⟨more, hmore⟩ := hspread.eq_cons h.opening_headed
  obtain ⟨moreLast, hmoreLast⟩ := hspreadLast.eq_cons h.closing_headed
  have htail : head ∉ opening.tail := by
    obtain ⟨tail, rfl, htail⟩ := h.opening_headed
    exact htail
  have hbroken : ¬ opening <+: broken ++ (between ++ (last ++ after)) := by
    intro hbegins
    rcases hspread.begins_with h htail hbegins with ⟨d, more, heq⟩ | heq
    · have hlength := congrArg List.length heq
      simp at hlength
    · exact hne heq
  have hlast : ¬ opening <+: last ++ after := by
    intro hbegins
    rcases hspreadLast.begins_with h htail hbegins with ⟨d, more, heq⟩ | rfl
    · exact h.opening_not_prefix ⟨d :: more, heq.symm⟩
    · obtain ⟨behind, hbehind⟩ := hbegins
      exact h.append_ne _ _ hbehind
  have hfirst : withoutBlocks opening closing
      (before ++ (broken ++ (between ++ (last ++ after)))) =
      withoutBlocks opening closing before ++ withoutBlocks opening closing
        (broken ++ (between ++ (last ++ after))) := by
    rw [hmore]
    exact withoutBlocks_append h hsettled _
  have hsecond : withoutBlocks opening closing (between ++ (last ++ after)) =
      withoutBlocks opening closing between ++
        withoutBlocks opening closing (last ++ after) := by
    rw [hmoreLast]
    exact withoutBlocks_append h hbetween _
  rw [hfirst, hspread.withoutBlocks h h.opening_headed hbroken, hsecond,
    hspreadLast.withoutBlocks h h.closing_headed hlast]
  exact ⟨withoutBlocks opening closing before, withoutBlocks opening closing between,
    withoutBlocks opening closing after, rfl⟩

-- What is left has a block exactly when two words join around the blocks.
theorem hasBlock_withoutBlocks_iff (h : Delimiters head opening closing) :
    HasBlock opening closing (withoutBlocks opening closing text) ↔
      JoinsBlock opening closing text :=
  ⟨joinsBlock_of_hasBlock h, hasBlock_of_joinsBlock h⟩

end Removing

end EvoClaw.Text
