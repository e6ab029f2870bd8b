import EvoClaw.Channels.SendMessage

namespace EvoClaw.Channels

open Text Router

section Pieces

variable {fate : Nat → Fate} {pieces : List (List Char)} {k : Nat} {platform : Platform}
  {split : List Char → List (List Char)}

theorem sendPieces_sublist (fate : Nat → Fate) (pieces : List (List Char)) (k : Nat) :
    (sendPieces fate k pieces).Sublist pieces := by
  induction pieces generalizing k with
  | nil => exact List.Sublist.refl _
  | cons piece rest ih =>
      unfold sendPieces
      cases fate k with
      | accepted => exact (ih (k + 1)).cons_cons piece
      | dropped => exact (ih (k + 1)).cons piece
      | aborted => exact List.nil_sublist _

-- A piece is taken when its own fate is right and none before it made the method return.
def Taken (fate : Nat → Fate) (k i : Nat) : Prop :=
  fate (k + i) = .accepted ∧ ∀ j < i, fate (k + j) ≠ .aborted

theorem taken_zero : Taken fate k 0 ↔ fate k = .accepted :=
  ⟨fun h => h.1, fun h => ⟨h, fun _ hj => absurd hj (Nat.not_lt_zero _)⟩⟩

theorem taken_succ {i : Nat} :
    Taken fate k (i + 1) ↔ fate k ≠ .aborted ∧ Taken fate (k + 1) i := by
  have hshift : ∀ j, k + 1 + j = k + (j + 1) := fun j => by omega
  constructor
  · rintro ⟨haccepted, hbefore⟩
    refine ⟨hbefore 0 (Nat.succ_pos i), ?_, fun j hj => ?_⟩
    · rw [hshift]
      exact haccepted
    · rw [hshift]
      exact hbefore (j + 1) (Nat.succ_lt_succ hj)
  · rintro ⟨hfirst, haccepted, hbefore⟩
    refine ⟨by rw [← hshift]; exact haccepted, fun j hj => ?_⟩
    cases j with
    | zero => exact hfirst
    | succ j =>
        rw [← hshift]
        exact hbefore j (Nat.lt_of_succ_lt_succ hj)

-- Every piece that is more than whitespace is taken.
def AllTaken (fate : Nat → Fate) (k : Nat) (pieces : List (List Char)) : Prop :=
  ∀ i piece, pieces[i]? = some piece → Solid isSpace piece = true → Taken fate k i

theorem allTaken_cons {piece : List Char} {rest : List (List Char)} :
    AllTaken fate k (piece :: rest) ↔
      (Solid isSpace piece = true → fate k = .accepted) ∧
        ∀ i later, rest[i]? = some later → Solid isSpace later = true →
          fate k ≠ .aborted ∧ Taken fate (k + 1) i := by
  constructor
  · intro h
    exact ⟨fun hsolid => taken_zero.mp (h 0 piece rfl hsolid),
      fun i later hi hsolid => taken_succ.mp (h (i + 1) later hi hsolid)⟩
  · rintro ⟨hfirst, hrest⟩ i later hi hsolid
    cases i with
    | zero =>
        cases hi
        exact taken_zero.mpr (hfirst hsolid)
    | succ i => exact taken_succ.mpr (hrest i later hi hsolid)

theorem filter_eq_nil_iff_getElem {p : List Char → Bool} :
    pieces.filter p = [] ↔ ∀ (i : Nat) piece, pieces[i]? = some piece → p piece = false := by
  rw [List.filter_eq_nil_iff]
  constructor
  · intro h i piece hi
    simpa using h piece (List.mem_of_getElem? hi)
  · intro h piece hpiece
    obtain ⟨i, hi⟩ := List.getElem?_of_mem hpiece
    simpa using h i piece hi

section Rounds

variable {piece : List Char} {rest : List (List Char)}

theorem sendPieces_of_accepted (h : fate k = .accepted) :
    sendPieces fate k (piece :: rest) = piece :: sendPieces fate (k + 1) rest := by
  simp [sendPieces, h]

theorem sendPieces_of_dropped (h : fate k = .dropped) :
    sendPieces fate k (piece :: rest) = sendPieces fate (k + 1) rest := by
  simp [sendPieces, h]

theorem sendPieces_of_aborted (h : fate k = .aborted) :
    sendPieces fate k (piece :: rest) = [] := by
  simp [sendPieces, h]

end Rounds

theorem filter_sendPieces_iff :
    (sendPieces fate k pieces).filter (Solid isSpace) = pieces.filter (Solid isSpace) ↔
      AllTaken fate k pieces := by
  induction pieces generalizing k with
  | nil => exact iff_of_true rfl fun i piece hi => by simp at hi
  | cons piece rest ih =>
      rw [allTaken_cons]
      cases hfate : fate k with
      | accepted =>
          rw [sendPieces_of_accepted hfate, List.filter_cons, List.filter_cons]
          have hrest := ih (k := k + 1)
          unfold AllTaken at hrest
          cases hsolid : Solid isSpace piece with
          | false => simp [hrest]
          | true => simp [hrest]
      | dropped =>
          rw [sendPieces_of_dropped hfate]
          have hrest := ih (k := k + 1)
          unfold AllTaken at hrest
          cases hsolid : Solid isSpace piece with
          | false => simp [hsolid, hrest]
          | true =>
              -- the piece is missing from what was sent
              have hlength :=
                ((sendPieces_sublist fate rest (k + 1)).filter (Solid isSpace)).length_le
              refine iff_of_false (fun h => ?_) fun h => by simpa using h.1
              have hlonger := congrArg List.length h
              rw [List.filter_cons_of_pos hsolid, List.length_cons] at hlonger
              omega
      | aborted =>
          rw [sendPieces_of_aborted hfate, List.filter_nil, eq_comm, filter_eq_nil_iff_getElem]
          constructor
          · intro h
            refine ⟨fun hsolid => ?_, fun i later hi hsolid => ?_⟩
            · rw [h 0 piece rfl] at hsolid
              cases hsolid
            · rw [h (i + 1) later hi] at hsolid
              cases hsolid
          · rintro ⟨hfirst, hrest⟩ i later hi
            by_contra hsolid
            rw [Bool.not_eq_false] at hsolid
            cases i with
            | zero =>
                cases hi
                cases hfirst hsolid
            | succ i => exact (hrest i later hi hsolid).1 rfl

-- One call has all of its text accepted, but for whitespace.
def Platform.Takes (platform : Platform) (split : List Char → List (List Char))
    (entry : List Char × Nat) : Prop :=
  ∀ i piece, (split entry.1)[i]? = some piece → Solid isSpace piece = true →
    platform.ready entry.2 = true ∧ Taken (platform.fate entry.2) 0 i

theorem filter_sendMessage_iff (entry : List Char × Nat) :
    (sendMessage platform split entry.2 entry.1).accepted.filter (Solid isSpace) =
      (split entry.1).filter (Solid isSpace) ↔ platform.Takes split entry := by
  unfold sendMessage Platform.Takes
  cases hready : platform.ready entry.2 with
  | true => simp [filter_sendPieces_iff, AllTaken]
  | false =>
      simp only [Bool.false_eq_true, if_false, false_and, List.filter_nil]
      rw [eq_comm, filter_eq_nil_iff_getElem]
      simp

theorem sendMessage_sublist (n : Nat) (chunk : List Char) :
    (sendMessage platform split n chunk).accepted.Sublist (split chunk) := by
  unfold sendMessage
  cases platform.ready n with
  | true => exact sendPieces_sublist _ _ _
  | false => exact List.nil_sublist _

theorem accounts_sendMessage_iff (hcovers : ∀ chunk, Covers isSpace (split chunk) chunk)
    (text : List Char) :
    (routeOutbound (sendMessage platform split) text).Accounts text ↔
      ∀ entry ∈ (splitMessage (formatOutbound text)).zipIdx, platform.Takes split entry := by
  rw [accounts_iff_of_silent (fun _ _ => rfl) hcovers sendMessage_sublist]
  simp only [filter_sendMessage_iff]

end Pieces

theorem covers_splitPieces {maxLen : Nat} (hpos : 0 < maxLen) (text : List Char) :
    Covers isSpace (splitPieces maxLen text) text :=
  (covers_chunksFrom hpos (by decide) (Nat.le_refl _)).filter_ne_nil

-- The condition of each channel on what the platform answers, for the pieces of one call.
namespace Telegram

-- bot.send_message succeeds, at once or where it is called again.
def Accepts (first again : Answer) : Prop :=
  first = .ok ∨ (first = .retryAfter ∨ first = .transient) ∧ again = .ok

theorem fate_eq_accepted {first again : Answer} :
    fate first again = .accepted ↔ Accepts first again := by
  unfold Accepts fate
  cases first <;> simp

theorem fate_eq_aborted {first again : Answer} :
    fate first again = .aborted ↔ first = .forbidden := by
  cases first with
  | retryAfter => by_cases h : again = .ok <;> simp [fate, h]
  | transient => by_cases h : again = .ok <;> simp [fate, h]
  | ok => simp [fate]
  | forbidden => simp [fate]
  | raised => simp [fate]

theorem covers_chunk (chunk : List Char) : Covers isSpace (pieces chunk) chunk :=
  covers_splitPieces (by decide) chunk

def Delivers (world : World) (jid : String) (entry : List Char × Nat) : Prop :=
  ∀ i piece, (pieces entry.1)[i]? = some piece → Solid isSpace piece = true →
    (world.app entry.2 = true ∧ (chatId jid).isSome = true) ∧
      Accepts (world.first entry.2 i) (world.again entry.2 i) ∧
      ∀ j < i, world.first entry.2 j ≠ .forbidden

theorem accounts_iff (world : World) (jid : String) (text : List Char) :
    (routeOutbound (send world jid) text).Accounts text ↔
      ∀ entry ∈ (splitMessage (formatOutbound text)).zipIdx, Delivers world jid entry := by
  unfold send
  rw [accounts_sendMessage_iff covers_chunk]
  simp [Platform.Takes, Taken, Delivers, fate_eq_accepted, fate_eq_aborted]

end Telegram

namespace WhatsApp

-- An answer whose message is sent once more, and one that ends the method.
def Again (status : Nat) : Prop := status = 429 ∨ status = 502 ∨ status = 503 ∨ status = 504

def Ends (answer : Answer) : Prop :=
  answer = .response 401 true ∨ answer = .response 403 true

-- The API answers 200 or 201, at once or where it is called again.
def Accepts (first again : Answer) : Prop :=
  first.ok = true ∨ (∃ status, Again status ∧ first = .response status true) ∧ again.ok = true

theorem fate_eq_accepted {first again : Answer} :
    fate first again = .accepted ↔ Accepts first again := by
  cases first with
  | raised => simp [fate, Accepts, Answer.ok]
  | response status readable =>
      simp only [fate, Accepts, Again, Answer.ok, Answer.response.injEq]
      split_ifs <;> simp_all
      all_goals omega

theorem fate_eq_aborted {first again : Answer} : fate first again = .aborted ↔ Ends first := by
  cases first with
  | raised => simp [fate, Ends]
  | response status readable =>
      simp only [fate, Ends, Answer.response.injEq]
      split_ifs <;> simp_all

theorem covers_chunk (chunk : List Char) : Covers isSpace (pieces chunk) chunk :=
  covers_splitPieces (by decide) chunk

def Delivers (world : World) (jid : String) (entry : List Char × Nat) : Prop :=
  ∀ i piece, (pieces entry.1)[i]? = some piece → Solid isSpace piece = true →
    (world.session entry.2 = true ∧ validJid jid = true) ∧
      Accepts (world.first entry.2 i) (world.again entry.2 i) ∧
      ∀ j < i, ¬Ends (world.first entry.2 j)

theorem accounts_iff (world : World) (jid : String) (text : List Char) :
    (routeOutbound (send world jid) text).Accounts text ↔
      ∀ entry ∈ (splitMessage (formatOutbound text)).zipIdx, Delivers world jid entry := by
  unfold send
  rw [accounts_sendMessage_iff covers_chunk]
  simp [Platform.Takes, Taken, Delivers, fate_eq_accepted, fate_eq_aborted]

end WhatsApp

namespace Discord

def Ends (answer : Answer) : Prop :=
  answer = .forbidden ∨ answer = .httpException 401 ∨ answer = .raised ∨ answer = .timedOut

theorem fate_eq_accepted {answer : Answer} : fate answer = .accepted ↔ answer = .ok := by
  cases answer with
  | httpException status =>
      simp only [fate]
      split <;> simp
  | ok => simp [fate]
  | forbidden => simp [fate]
  | raised => simp [fate]
  | timedOut => simp [fate]

theorem fate_eq_aborted {answer : Answer} : fate answer = .aborted ↔ Ends answer := by
  cases answer with
  | httpException status =>
      simp only [fate, Ends]
      split <;> simp_all
  | ok => simp [fate, Ends]
  | forbidden => simp [fate, Ends]
  | raised => simp [fate, Ends]
  | timedOut => simp [fate, Ends]

theorem covers_slices {fuel : Nat} {text : List Char} (hfuel : text.length ≤ fuel) :
    Covers isSpace (slices fuel text) text := by
  induction fuel generalizing text with
  | zero =>
      have hnil : text = [] := List.length_eq_zero_iff.mp (Nat.le_zero.mp hfuel)
      subst hnil
      exact fun _ h => nomatch h
  | succ fuel ih =>
      unfold slices
      split
      · next hnil =>
          subst hnil
          exact fun _ h => nomatch h
      · next hne =>
          have hpos : 0 < text.length := List.length_pos_iff.mpr hne
          have hlimit : 0 < _DISCORD_LIMIT := by decide
          have hshorter : (text.drop _DISCORD_LIMIT).length ≤ fuel := by
            rw [List.length_drop]
            omega
          exact ⟨[], text.drop _DISCORD_LIMIT, by simp, fun _ h => (nomatch h), ih hshorter⟩

theorem covers_chunk (chunk : List Char) : Covers isSpace (pieces chunk) chunk :=
  covers_slices (Nat.le_refl chunk.length)

def Delivers (world : World) (entry : List Char × Nat) : Prop :=
  ∀ i piece, (pieces entry.1)[i]? = some piece → Solid isSpace piece = true →
    (world.connected entry.2 = true ∧ world.running entry.2 = true ∧
        world.channel entry.2 = true) ∧
      world.answer entry.2 i = .ok ∧ ∀ j < i, ¬Ends (world.answer entry.2 j)

theorem accounts_iff (world : World) (text : List Char) :
    (routeOutbound (send world) text).Accounts text ↔
      ∀ entry ∈ (splitMessage (formatOutbound text)).zipIdx, Delivers world entry := by
  unfold send
  rw [accounts_sendMessage_iff covers_chunk]
  simp [Platform.Takes, Taken, Delivers, fate_eq_accepted, fate_eq_aborted, and_assoc]

end Discord

-- A reply is accepted or its failure observed exactly when the platform takes every piece of
-- every chunk that is more than whitespace: the failures that a send_message hides are never
-- observed.
theorem reply_accounted_iff (text : List Char) (jid : String) (telegram : Telegram.World)
    (whatsApp : WhatsApp.World) (discord : Discord.World) :
    ((routeOutbound (Telegram.send telegram jid) text).Accounts text ↔
      ∀ entry ∈ (splitMessage (formatOutbound text)).zipIdx,
        Telegram.Delivers telegram jid entry) ∧
    ((routeOutbound (WhatsApp.send whatsApp jid) text).Accounts text ↔
      ∀ entry ∈ (splitMessage (formatOutbound text)).zipIdx,
        WhatsApp.Delivers whatsApp jid entry) ∧
    ((routeOutbound (Discord.send discord) text).Accounts text ↔
      ∀ entry ∈ (splitMessage (formatOutbound text)).zipIdx, Discord.Delivers discord entry) :=
  ⟨Telegram.accounts_iff telegram jid text, WhatsApp.accounts_iff whatsApp jid text,
    Discord.accounts_iff discord text⟩

-- bot.send_message raises a BadRequest for a chat that is not there. It is a NetworkError, so the
-- call is made once more.
def Telegram.badRequest : Telegram.World where
  app _ := true
  first _ _ := .transient
  again _ _ := .transient

theorem reply_lost_silently :
    routeOutbound (Telegram.send Telegram.badRequest "tg:7") "hi".toList =
        { accepted := [], observed := false } ∧
      ¬(routeOutbound (Telegram.send Telegram.badRequest "tg:7") "hi".toList).Accounts
        "hi".toList := by
  have hrouted : routeOutbound (Telegram.send Telegram.badRequest "tg:7") "hi".toList =
      { accepted := [], observed := false } := by decide +kernel
  refine ⟨hrouted, fun haccounts => ?_⟩
  rw [hrouted] at haccounts
  rcases haccounts with hcovers | hobserved
  · have hblank : isSpace 'h' = true := hcovers 'h' (by decide +kernel)
    exact absurd hblank (by decide +kernel)
  · cases hobserved

end EvoClaw.Channels
