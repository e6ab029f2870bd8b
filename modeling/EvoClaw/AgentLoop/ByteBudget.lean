import EvoClaw.AgentLoop.Openai
import Mathlib.Algebra.BigOperators.Group.List.Basic

-- The trim of a history of any JSON messages to a budget of bytes.
namespace EvoClaw.AgentLoop.ByteBudget

open JsonText

variable (floatText : BitVec 64 → List Char)

-- len(json.dumps(msg, ensure_ascii=False).encode("utf-8"))
def msgBytes (msg : Payload) : Nat :=
  Utf8.byteCount floatText (.obj msg)

def historyBytes (history : List Payload) : Nat :=
  Utf8.byteCount floatText (.arr (history.map .obj))

def isTool (msg : Payload) : Bool :=
  msg.get "role" .null = .str "tool"

-- The messages, last one first, that fit into what remains of the budget.
def keptReversed (remaining : Int) : List Payload → List Payload
  | [] => []
  | msg :: earlier =>
      let bytes := msgBytes floatText msg + 1
      if remaining < bytes then [] else msg :: keptReversed (remaining - bytes) earlier

-- The trimmed history, its bytes before and after.
def trimHistoryToByteBudget (history : List Payload) (budget : Int) :
    List Payload × Nat × Nat :=
  if history = [] then (history, 0, 0)
  else
    let originalBytes := historyBytes floatText history
    if originalBytes ≤ budget then (history, originalBytes, originalBytes)
    else
      let remaining := budget - historyBytes floatText (history.take 1)
      let keptTail := (keptReversed floatText remaining history.tail.reverse).reverse
      let newHistory := history.take 1 ++ keptTail.dropWhile isTool
      (newHistory, originalBytes, historyBytes floatText newHistory)

-- What the trim promises.
structure Trims (history : List Payload) (budget : Int) (trimmed : List Payload) : Prop where
  head : trimmed.head? = history.head?
  suffix : trimmed.tail <:+ history.tail
  no_tool : ∀ msg ∈ trimmed.tail.head?, isTool msg = false
  fits : historyBytes floatText (history.take 1) ≤ budget → historyBytes floatText trimmed ≤ budget
  unchanged : historyBytes floatText history ≤ budget → trimmed = history

-- What the walk counts for the messages: one byte for each separator.
def estimate (msgs : List Payload) : Nat :=
  (msgs.map fun msg => msgBytes floatText msg + 1).sum

-- No suffix that the estimate lets pass is over the budget.
def Fitting (first : Payload) (rest : List Payload) (budget : Int) : Prop :=
  ∀ kept, kept <:+ rest → (∀ msg ∈ kept.head?, isTool msg = false) →
    historyBytes floatText [first] + estimate floatText kept ≤ budget →
    historyBytes floatText (first :: kept) ≤ budget

section Sizes

variable {floatText}

-- json.dumps separates two items by a comma and a blank.
theorem historyBytes_cons (first : Payload) (rest : List Payload) :
    historyBytes floatText (first :: rest) =
      historyBytes floatText [first] + (rest.map fun msg => msgBytes floatText msg + 2).sum := by
  have hitems : ∀ msgs : List Payload,
      ((Utf8.dumpItems floatText (msgs.map .obj)).map Char.utf8Size).sum =
        ((Utf8.dumpItems floatText []).map Char.utf8Size).sum +
          (msgs.map fun msg => msgBytes floatText msg + 2).sum := by
    intro msgs
    induction msgs with
    | nil => rfl
    | cons msg msgs ih =>
        have hseparator : ((Utf8.dumpItems floatText ((msg :: msgs).map .obj)).map
            Char.utf8Size).sum = 1 + (1 + (msgBytes floatText msg +
              ((Utf8.dumpItems floatText (msgs.map .obj)).map Char.utf8Size).sum)) := by
          rw [List.map_cons, Utf8.dumpItems, List.map_cons, List.map_cons, List.map_append,
            List.sum_cons, List.sum_cons, List.sum_append]
          rfl
        rw [hseparator, ih, List.map_cons, List.sum_cons]
        omega
  have hrest := hitems rest
  simp only [historyBytes, Utf8.byteCount, List.map_cons, List.map_nil, Utf8.dumps, List.map_append,
    List.sum_cons, List.sum_append] at hrest ⊢
  omega

theorem historyBytes_le_of_suffix {first : Payload} {kept rest : List Payload}
    (h : kept <:+ rest) :
    historyBytes floatText (first :: kept) ≤ historyBytes floatText (first :: rest) := by
  obtain ⟨dropped, rfl⟩ := h
  rw [historyBytes_cons, historyBytes_cons first (dropped ++ kept), List.map_append,
    List.sum_append]
  omega

theorem estimate_cons (msg : Payload) (msgs : List Payload) :
    estimate floatText (msg :: msgs) = msgBytes floatText msg + 1 + estimate floatText msgs := by
  rw [estimate, estimate, List.map_cons, List.sum_cons]

-- The estimate is short of one byte for each message.
theorem historyBytes_eq_estimate (first : Payload) (kept : List Payload) :
    historyBytes floatText (first :: kept) =
      historyBytes floatText [first] + estimate floatText kept + kept.length := by
  rw [historyBytes_cons]
  induction kept with
  | nil => rfl
  | cons msg kept ih =>
      rw [estimate_cons, List.map_cons, List.sum_cons, List.length_cons]
      omega

theorem estimate_reverse (msgs : List Payload) :
    estimate floatText msgs.reverse = estimate floatText msgs := by
  rw [estimate, estimate, List.map_reverse, List.sum_reverse]

theorem estimate_le_of_suffix {kept rest : List Payload} (h : kept <:+ rest) :
    estimate floatText kept ≤ estimate floatText rest := by
  obtain ⟨dropped, rfl⟩ := h
  rw [estimate, estimate, List.map_append, List.sum_append]
  exact Nat.le_add_left _ _

end Sizes

section Walk

variable {floatText} {remaining : Int} {msgs : List Payload}

theorem keptReversed_prefix (remaining : Int) (msgs : List Payload) :
    keptReversed floatText remaining msgs <+: msgs := by
  induction msgs generalizing remaining with
  | nil => exact List.prefix_rfl
  | cons msg msgs ih =>
      rw [keptReversed]
      split
      · exact List.nil_prefix
      · rw [List.cons_prefix_cons]
        exact ⟨rfl, ih _⟩

theorem estimate_keptReversed (h : 0 ≤ remaining) :
    estimate floatText (keptReversed floatText remaining msgs) ≤ remaining := by
  induction msgs generalizing remaining with
  | nil => exact h
  | cons msg msgs ih =>
      rw [keptReversed]
      split
      · exact h
      · next hroom =>
          have hrest := ih (Int.sub_nonneg_of_le (Int.not_lt.mp hroom))
          rw [estimate_cons]
          omega

-- The walk stops at the first message that does not fit.
theorem prefix_keptReversed {kept : List Payload} ( hprefix : kept <+: msgs)
    (hfits : (estimate floatText kept : Int) ≤ remaining) :
    kept <+: keptReversed floatText remaining msgs := by
  induction kept generalizing remaining msgs with
  | nil => exact List.nil_prefix
  | cons msg kept ih =>
      obtain ⟨more, rfl⟩ := hprefix
      rw [estimate_cons] at hfits
      rw [List.cons_append, keptReversed, if_neg (by omega), List.cons_prefix_cons]
      exact ⟨rfl, ih (List.prefix_append _ _) (by omega)⟩

-- A suffix that does not begin with a tool message reaches into none of the dropped ones.
theorem suffix_dropWhile {kept : List Payload} (hsuffix : kept <:+ msgs)
    (hhead : ∀ msg ∈ kept.head?, isTool msg = false) : kept <:+ msgs.dropWhile isTool := by
  induction msgs with
  | nil => exact hsuffix
  | cons msg msgs ih =>
      by_cases htool : isTool msg = true
      · rw [List.dropWhile_cons_of_pos htool]
        rcases List.suffix_cons_iff.mp hsuffix with rfl | hsuffix
        · have hfalse := hhead msg rfl
          rw [htool] at hfalse
          cases hfalse
        · exact ih hsuffix
      · rw [List.dropWhile_cons_of_neg htool]
        exact hsuffix

theorem head?_dropWhile (msgs : List Payload) :
    ∀ msg ∈ (msgs.dropWhile isTool).head?, isTool msg = false := by
  intro msg hmsg
  have hhead := List.head?_dropWhile_not isTool msgs
  rw [Option.mem_def.mp hmsg] at hhead
  simpa using hhead

end Walk

section Trimmed

variable {floatText} {first : Payload} {rest : List Payload} {budget : Int}

theorem trim_within (h : historyBytes floatText (first :: rest) ≤ budget) :
    (trimHistoryToByteBudget floatText (first :: rest) budget).1 = first :: rest := by
  unfold trimHistoryToByteBudget
  simp only
  rw [if_neg (List.cons_ne_nil first rest), if_pos h]

-- The messages that the walk keeps.
def keptTail (floatText : BitVec 64 → List Char) (first : Payload) (rest : List Payload)
    (budget : Int) : List Payload :=
  (keptReversed floatText (budget - historyBytes floatText [first]) rest.reverse).reverse

theorem trim_over (h : ¬ historyBytes floatText (first :: rest) ≤ budget) :
    (trimHistoryToByteBudget floatText (first :: rest) budget).1 =
      first :: (keptTail floatText first rest budget).dropWhile isTool := by
  unfold trimHistoryToByteBudget
  simp only
  rw [if_neg (List.cons_ne_nil first rest), if_neg h]
  rfl

theorem keptTail_suffix : keptTail floatText first rest budget <:+ rest := by
  have hprefix : keptReversed floatText (budget - historyBytes floatText [first]) rest.reverse <+:
      rest.reverse := keptReversed_prefix _ _
  rw [← List.reverse_suffix, List.reverse_reverse] at hprefix
  exact hprefix

theorem estimate_keptTail (h : (historyBytes floatText [first] : Int) ≤ budget) :
    (estimate floatText (keptTail floatText first rest budget) : Int) ≤
      budget - historyBytes floatText [first] := by
  rw [keptTail, estimate_reverse]
  exact estimate_keptReversed (Int.sub_nonneg_of_le h)

theorem suffix_keptTail {kept : List Payload} (hsuffix : kept <:+ rest)
    (hfits : (historyBytes floatText [first] + estimate floatText kept : Int) ≤ budget) :
    kept <:+ keptTail floatText first rest budget := by
  have hreverse : kept.reverse <+: keptReversed floatText
      (budget - historyBytes floatText [first]) rest.reverse := by
    refine prefix_keptReversed (List.reverse_prefix.mpr hsuffix) ?_
    rw [estimate_reverse]
    omega
  rw [← List.reverse_suffix, List.reverse_reverse] at hreverse
  exact hreverse

-- Of the suffixes that pass, the longest one is what remains of the history.
theorem fits_iff_fitting : Fitting floatText first rest budget ↔
    ((historyBytes floatText [first] : Int) ≤ budget →
      (historyBytes floatText (first :: (keptTail floatText first rest budget).dropWhile isTool) :
        Int) ≤ budget) := by
  have hdropped : (keptTail floatText first rest budget).dropWhile isTool <:+
      keptTail floatText first rest budget := List.dropWhile_suffix isTool
  constructor
  · intro h hfirst
    refine h _ (hdropped.trans keptTail_suffix) (head?_dropWhile _) ?_
    have hestimate : (estimate floatText (keptTail floatText first rest budget) : Int) ≤
        budget - historyBytes floatText [first] := estimate_keptTail hfirst
    have hle : estimate floatText ((keptTail floatText first rest budget).dropWhile isTool) ≤
        estimate floatText (keptTail floatText first rest budget) :=
      estimate_le_of_suffix hdropped
    omega
  · intro h kept hsuffix hhead hfits
    have hkept : kept <:+ (keptTail floatText first rest budget).dropWhile isTool :=
      suffix_dropWhile (suffix_keptTail hsuffix hfits) hhead
    have hle : historyBytes floatText (first :: kept) ≤ historyBytes floatText
        (first :: (keptTail floatText first rest budget).dropWhile isTool) :=
      historyBytes_le_of_suffix hkept
    have hlongest := h (by omega)
    omega

-- A trimmed history is over the budget by one byte a message at most.
theorem historyBytes_trimmed_le (h : (historyBytes floatText [first] : Int) ≤ budget) :
    (historyBytes floatText (first :: (keptTail floatText first rest budget).dropWhile isTool) :
      Int) ≤ budget + ((keptTail floatText first rest budget).dropWhile isTool).length := by
  have hestimate : (estimate floatText (keptTail floatText first rest budget) : Int) ≤
      budget - historyBytes floatText [first] := estimate_keptTail h
  have hle : estimate floatText ((keptTail floatText first rest budget).dropWhile isTool) ≤
      estimate floatText (keptTail floatText first rest budget) :=
    estimate_le_of_suffix (List.dropWhile_suffix isTool)
  rw [historyBytes_eq_estimate]
  omega

end Trimmed

theorem trims_budget_iff (first : Payload) (rest : List Payload) (budget : Int) :
    Trims floatText (first :: rest) budget
        (trimHistoryToByteBudget floatText (first :: rest) budget).1 ↔
      if historyBytes floatText (first :: rest) ≤ budget then
        ∀ msg ∈ rest.head?, isTool msg = false
      else Fitting floatText first rest budget := by
  split
  · next hfits =>
      rw [trim_within hfits]
      exact ⟨fun h => h.no_tool, fun h => ⟨rfl, List.suffix_rfl, h, fun _ => hfits, fun _ => rfl⟩⟩
  · next hover =>
      rw [trim_over hover, fits_iff_fitting]
      refine ⟨fun h => h.fits, fun h => ⟨rfl, ?_, ?_, h, fun hfits => absurd hfits hover⟩⟩
      · exact (List.dropWhile_suffix isTool).trans keptTail_suffix
      · exact head?_dropWhile _

-- Three short messages behind a system message.
def shortHistory : List Payload :=
  [[("role", .str "system"), ("content", .str "")], [("role", .str "user"), ("content", .str "a")],
    [("role", .str "user"), ("content", .str "b")], [("role", .str "user"), ("content", .str "c")]]

-- Two of the three fit by the estimate, and their list is one byte over the budget.
theorem trimmed_over_budget :
    historyBytes (fun _ => []) (shortHistory.take 1) = 35 ∧
      (trimHistoryToByteBudget (fun _ => []) shortHistory 102).2 = (137, 103) ∧
      ¬ Trims (fun _ => []) shortHistory 102
        (trimHistoryToByteBudget (fun _ => []) shortHistory 102).1 := by
  have hbytes : historyBytes (fun _ => [])
      (trimHistoryToByteBudget (fun _ => []) shortHistory 102).1 = 103 := by decide +kernel
  have hfirst : historyBytes (fun _ => []) (shortHistory.take 1) = 35 := by decide +kernel
  refine ⟨hfirst, by decide +kernel, fun h => ?_⟩
  have hfits := h.fits (by rw [hfirst]; decide)
  rw [hbytes] at hfits
  exact absurd hfits (by decide)

section Loop

-- A message of the loop as a dict.
def payload (msg : Openai.Message) : Payload :=
  match msg.toJson with
  | .obj fields => fields
  | _ => []

theorem obj_payload (msg : Openai.Message) : .obj (payload msg) = msg.toJson := rfl

theorem isTool_payload (msg : Openai.Message) : isTool (payload msg) = msg.isTool := by
  have hrole : (payload msg).get "role" .null = .str msg.role := rfl
  rw [isTool, hrole, Openai.Message.isTool]
  exact decide_eq_decide.mpr (by rw [Json.str.injEq])

variable {floatText}

theorem historyBytes_payload (history : List Openai.Message) :
    historyBytes floatText (history.map payload) = Openai.totalSize floatText history := by
  rw [historyBytes, List.map_map]
  rfl

theorem keptReversed_payload (remaining : Int) (msgs : List Openai.Message) :
    keptReversed floatText remaining (msgs.map payload) =
      (Openai.fitting floatText remaining msgs).map payload := by
  induction msgs generalizing remaining with
  | nil => rfl
  | cons msg msgs ih =>
      have hbytes : msgBytes floatText (payload msg) = Openai.byteSize floatText msg := rfl
      rw [List.map_cons, keptReversed, Openai.fitting, hbytes]
      push_cast
      split
      · rfl
      · rw [ih, List.map_cons]

-- The loop trims its history by this function.
theorem trimToByteBudget_payload (budget : Nat) (history : List Openai.Message) :
    (Openai.trimToByteBudget floatText budget history).map payload =
      (trimHistoryToByteBudget floatText (history.map payload) budget).1 := by
  cases history with
  | nil =>
      unfold Openai.trimToByteBudget
      split <;> rfl
  | cons first rest =>
      have htotal : historyBytes floatText (payload first :: rest.map payload) =
          Openai.totalSize floatText (first :: rest) := historyBytes_payload (first :: rest)
      have hfirst : historyBytes floatText [payload first] = Openai.totalSize floatText [first] :=
        historyBytes_payload [first]
      rw [List.map_cons]
      by_cases hfits : Openai.totalSize floatText (first :: rest) ≤ budget
      · rw [trim_within (by rw [htotal]; exact_mod_cast hfits), Openai.trimToByteBudget,
          if_pos hfits, List.map_cons]
      · rw [trim_over (by rw [htotal]; exact_mod_cast hfits), Openai.trimToByteBudget,
          if_neg hfits]
        have hisTool : isTool ∘ payload = Openai.Message.isTool := funext isTool_payload
        simp only [keptTail, hfirst, List.take_succ_cons, List.take_zero, List.tail_cons,
          List.map_cons, List.singleton_append]
        rw [← List.map_reverse, keptReversed_payload, ← List.map_reverse, List.dropWhile_map,
          hisTool]

end Loop

end EvoClaw.AgentLoop.ByteBudget
