import EvoClaw.Json
import EvoClaw.Text.Substitute

-- _redact_url_secrets and SecretUrlRedactor of host/log_formatter.py.
namespace EvoClaw.Logging

open Text

-- A pattern: group 1, what is dropped, and the text of group 2.
structure SecretUrl where
  before : List (Text.Part Char)
  secret : List (Text.Part Char)
  after : List Char := []

def SecretUrl.parts (url : SecretUrl) : List (Text.Part Char) :=
  url.before ++ (url.secret ++ if url.after = [] then [] else [.literal url.after])

-- \d
def isDecimal (c : Char) : Bool := (digitValue c).isSome

-- [A-Z0-9]
def isIdChar (c : Char) : Bool := ('A' ≤ c ∧ c ≤ 'Z') ∨ ('0' ≤ c ∧ c ≤ '9')

-- [A-Za-z0-9_-]
def isTokenChar (c : Char) : Bool :=
  ('A' ≤ c ∧ c ≤ 'Z') ∨ ('a' ≤ c ∧ c ≤ 'z') ∨ ('0' ≤ c ∧ c ≤ '9') ∨ c = '_' ∨ c = '-'

-- (api\.telegram\.org/bot)\d+:[A-Za-z0-9_-]+(/)
def telegram : SecretUrl where
  before := [.literal "api.telegram.org/bot".toList]
  secret := [.run isDecimal, .literal [':'], .run isTokenChar]
  after := ['/']

-- (discord(?:app)?\.com/api/webhooks/\d+/)[A-Za-z0-9_-]+, with app and without
def discord (host : List Char) : SecretUrl where
  before := [.literal (host ++ ".com/api/webhooks/".toList), .run isDecimal, .literal ['/']]
  secret := [.run isTokenChar]

-- (hooks\.slack\.com/services/[A-Z0-9]+/[A-Z0-9]+/)[A-Za-z0-9_-]+
def slack : SecretUrl where
  before := [.literal "hooks.slack.com/services/".toList, .run isIdChar, .literal ['/'],
    .run isIdChar, .literal ['/']]
  secret := [.run isTokenChar]

-- The alternatives of each pattern.
def SECRET_URL_PATTERNS : List (List SecretUrl) :=
  [[telegram], [discord "discordapp".toList, discord "discord".toList], [slack]]

def matchUrl (urls : List SecretUrl) (text : List Char) : Option Nat :=
  urls.findSome? fun url => matchParts url.parts text

-- \1***REDACTED***\2
def hide (urls : List SecretUrl) (found : List Char) : List Char :=
  match urls.find? fun url => (matchParts url.parts found).isSome with
  | some url =>
      found.take ((matchParts url.before found).getD 0) ++ ("***REDACTED***".toList ++ url.after)
  | none => found

def redactUrlSecrets (text : List Char) : List Char :=
  SECRET_URL_PATTERNS.foldl (fun text urls => substitute (matchUrl urls) (hide urls) 0 text) text

-- An argument of a record is a string, or something that str() shows, or cannot.
inductive Arg where
  | str (text : List Char)
  | other (shown : Option (List Char))
deriving DecidableEq

def Arg.shown : Arg → Option (List Char)
  | .str text => some text
  | .other shown => shown

inductive Args where
  | positional (args : List Arg)
  | named (args : List (String × Arg))
deriving DecidableEq

def Args.values : Args → List Arg
  | .positional args => args
  | .named args => args.map Prod.snd

def Args.map (f : Arg → Arg) : Args → Args
  | .positional args => .positional (args.map f)
  | .named args => .named (args.map fun entry => (entry.1, f entry.2))

structure LogRecord where
  msg : Arg
  args : Args
deriving DecidableEq

def maybeRedactAny : Arg → Arg
  | .str text => .str (redactUrlSecrets text)
  | .other none => .other none
  | .other (some shown) =>
      if redactUrlSecrets shown = shown then .other (some shown)
      else .str (redactUrlSecrets shown)

-- SecretUrlRedactor.filter
def filter (record : LogRecord) : LogRecord where
  msg := match record.msg with
    | .str text => .str (redactUrlSecrets text)
    | .other shown => .other shown
  args := record.args.map maybeRedactAny

def language (urls : List SecretUrl) : Set (List Char) :=
  fun word => ∃ url ∈ urls, Spells url.parts word

-- No URL with its secret stands anywhere in the text.
def Clean (text : List Char) : Prop :=
  ∀ urls ∈ SECRET_URL_PATTERNS, ∀ word ∈ language urls, ¬ word <:+: text

def middle : List Char := "**REDACTED**".toList

-- What the alternatives of one pattern have to meet.
structure Guarded (urls : List SecretUrl) : Prop where
  separated : ∀ url ∈ urls, Separated url.parts
  noStar : ∀ url ∈ urls, literalCount '*' url.parts = 0 ∧ RunsAvoid '*' url.parts
  slashes : ∀ url ∈ urls, 0 < literalCount '/' url.parts ∧ RunsAvoid '/' url.parts
  after : ∀ url ∈ urls, ∀ other ∈ urls, url.after = other.after
  front : ∀ url ∈ urls, ∀ front, Spells url.before front → ∀ word ∈ language urls,
    ¬ word <:+: front
  back : ∀ url ∈ urls, ∀ c ∈ url.after, ∀ word ∈ language urls, word.head? ≠ some c

section Patterns

variable {urls : List SecretUrl} {url : SecretUrl} {text word found front : List Char}

theorem matchParts_before {parts more : List (Text.Part Char)}
    (h : (matchParts (parts ++ more) text).isSome) : (matchParts parts text).isSome := by
  induction parts generalizing text with
  | nil => rfl
  | cons part parts ih =>
      cases part with
      | literal word =>
          rw [List.cons_append, matchParts] at h
          rw [matchParts]
          split at h
          · next hbegins =>
              rw [if_pos hbegins]
              rw [Option.isSome_map] at h ⊢
              exact ih h
          · cases h
      | run isIn =>
          rw [List.cons_append, matchParts] at h
          rw [matchParts]
          split at h
          · cases h
          · next hsome =>
              rw [if_neg hsome]
              rw [Option.isSome_map] at h ⊢
              exact ih h

theorem suffix_after (h : Spells url.parts found) : url.after <:+ found := by
  rw [SecretUrl.parts, ← List.append_assoc] at h
  obtain ⟨before, after, rfl, -, hafter⟩ := spells_append.mp h
  split at hafter
  · next hnil => rw [hnil]; exact List.nil_suffix
  · obtain ⟨rest, rfl, rfl⟩ := hafter
    rw [List.append_nil]
    exact List.suffix_append _ _

theorem Guarded.solid (h : Guarded urls) (hword : word ∈ language urls) :
    word ≠ [] ∧ '*' ∉ word ∧ ¬ word <:+: middle := by
  obtain ⟨url, hurl, hspells⟩ := hword
  obtain ⟨hstar, hstars⟩ := h.noStar url hurl
  obtain ⟨hslash, hslashes⟩ := h.slashes url hurl
  have hstarCount := count_of_spells hspells hstars
  have hslashCount := count_of_spells hspells hslashes
  have hmem : '/' ∈ word := List.count_pos_iff.mp (by omega)
  refine ⟨List.ne_nil_of_mem hmem, List.count_eq_zero.mp (by omega), fun hinside => ?_⟩
  exact absurd (hinside.subset hmem) (by decide)

theorem Guarded.marks (h : Guarded urls) :
    Marks (matchUrl urls) (hide urls) (language urls) '*' middle where
  sound text n hmatch := by
    obtain ⟨url, hurl, hparts⟩ := List.exists_of_findSome?_eq_some hmatch
    obtain ⟨hlength, hspells⟩ := matchParts_sound hparts
    exact ⟨hlength, url, hurl, hspells⟩
  complete word hword text hbegins := by
    obtain ⟨url, hurl, hspells⟩ := hword
    rw [matchUrl, List.findSome?_isSome_iff]
    exact ⟨url, hurl, matchParts_complete (h.separated url hurl) hspells hbegins⟩
  solid word hword := h.solid hword
  shape found hfound := by
    obtain ⟨url, hurl, hspells⟩ := hfound
    have hmatches := matchParts_complete (h.separated url hurl) hspells (List.prefix_refl found)
    have hfind : (urls.find? fun url => (matchParts url.parts found).isSome).isSome :=
      List.find?_isSome.mpr ⟨url, hurl, hmatches⟩
    obtain ⟨chosen, hchosen⟩ := Option.isSome_iff_exists.mp hfind
    have hmem := List.mem_of_find?_eq_some hchosen
    have hchosenMatches : (matchParts chosen.parts found).isSome := by
      simpa using List.find?_some hchosen
    obtain ⟨n, hn⟩ := Option.isSome_iff_exists.mp (matchParts_before hchosenMatches)
    refine ⟨found.take n, chosen.after, ?_, List.take_prefix n found, ?_,
      h.front chosen hmem _ (matchParts_sound hn).2, h.back chosen hmem⟩
    · rw [hide, hchosen]
      dsimp only
      rw [hn]
      rfl
    · rw [h.after chosen hmem url hurl]
      exact suffix_after hspells

-- A secret at the end, behind a slash. What stands before it has all the slashes of the pattern and
-- ends in one, which no match does.
theorem guarded_of_last (slashes : Nat)
    (hlast : ∀ url ∈ urls, ∃ parts, url =
      { before := parts ++ [.literal ['/']], secret := [.run isTokenChar] })
    (hseparated : ∀ url ∈ urls, Separated url.parts)
    (hstars : ∀ url ∈ urls, literalCount '*' url.parts = 0 ∧ RunsAvoid '*' url.parts)
    (hslashes : ∀ url ∈ urls, literalCount '/' url.parts = slashes + 1 ∧ RunsAvoid '/' url.parts) :
    Guarded urls where
  separated := hseparated
  noStar := hstars
  slashes url hurl := by
    obtain ⟨hcount, havoid⟩ := hslashes url hurl
    exact ⟨by omega, havoid⟩
  after url hurl other hother := by
    obtain ⟨parts, rfl⟩ := hlast url hurl
    obtain ⟨otherParts, rfl⟩ := hlast other hother
    rfl
  front url hurl front hfront word hword := by
    obtain ⟨other, hother, hspells⟩ := hword
    obtain ⟨hcount, havoid⟩ := hslashes url hurl
    obtain ⟨hotherCount, hotherAvoid⟩ := hslashes other hother
    have hwordCount := count_of_spells hspells hotherAvoid
    obtain ⟨parts, rfl⟩ := hlast url hurl
    obtain ⟨otherParts, rfl⟩ := hlast other hother
    have hfrontCount : front.count '/' = literalCount '/' (parts ++ [.literal ['/']]) :=
      count_of_spells hfront (runsAvoid_append.mp havoid).1
    have hsame : slashes + 1 = literalCount '/' (parts ++ [.literal ['/']]) + 0 :=
      hcount.symm.trans literalCount_append
    obtain ⟨last, hwordLast, htoken⟩ := getLast?_of_run hspells
    have hnotSlash : word.getLast? ≠ some '/' := by
      rw [hwordLast]
      rintro ⟨⟩
      exact absurd htoken (by decide)
    have hne : word ≠ [] := by
      rintro rfl
      cases hwordLast
    exact not_infix_of_count (getLast?_of_literal hfront) hnotSlash (by omega) hne
  back url hurl c hc := by
    obtain ⟨parts, rfl⟩ := hlast url hurl
    cases hc

end Patterns

theorem guarded_telegram : Guarded [telegram] where
  separated := by
    simp only [List.mem_singleton, forall_eq]
    exact ⟨by decide, by decide, trivial⟩
  noStar := by
    simp only [List.mem_singleton, forall_eq]
    exact ⟨by decide, by decide, by decide, trivial⟩
  slashes := by
    simp only [List.mem_singleton, forall_eq]
    exact ⟨by decide, by decide, by decide, trivial⟩
  after := by simp
  front := by
    simp only [List.mem_singleton, forall_eq]
    rintro front hfront word ⟨url, hurl, hword⟩ hinside
    obtain rfl := List.mem_singleton.mp hurl
    have hcount := count_of_spells (c := '/') hword ⟨by decide, by decide, trivial⟩
    have hfrontCount := count_of_spells (c := '/') hfront trivial
    have hle := hinside.sublist.count_le '/'
    rw [hcount, hfrontCount] at hle
    exact absurd hle (by decide)
  back := by
    simp only [List.mem_singleton, forall_eq]
    rintro c hc word ⟨url, hurl, hword⟩ hhead
    obtain rfl := List.mem_singleton.mp hurl
    obtain ⟨rest, rfl, -⟩ := hword
    obtain rfl : c = '/' := List.mem_singleton.mp hc
    exact absurd (Option.some.inj hhead) (by decide)

theorem guarded_discord :
    Guarded [discord "discordapp".toList, discord "discord".toList] := by
  have hboth {p : SecretUrl → Prop} (happ : p (discord "discordapp".toList))
      (hplain : p (discord "discord".toList)) :
      ∀ url ∈ [discord "discordapp".toList, discord "discord".toList], p url :=
    List.forall_mem_cons.mpr ⟨happ, List.forall_mem_singleton.mpr hplain⟩
  have hlast (host : List Char) : ∃ parts, discord host =
      { before := parts ++ [.literal ['/']], secret := [.run isTokenChar] } :=
    ⟨[.literal (host ++ ".com/api/webhooks/".toList), .run isDecimal], rfl⟩
  exact guarded_of_last 3 (hboth (hlast _) (hlast _))
    (hboth ⟨by decide, trivial⟩ ⟨by decide, trivial⟩)
    (hboth ⟨by decide, by decide, by decide, trivial⟩ ⟨by decide, by decide, by decide, trivial⟩)
    (hboth ⟨by decide, by decide, by decide, trivial⟩ ⟨by decide, by decide, by decide, trivial⟩)

theorem guarded_slack : Guarded [slack] := by
  have hlast : ∃ parts, slack =
      { before := parts ++ [.literal ['/']], secret := [.run isTokenChar] } :=
    ⟨[.literal "hooks.slack.com/services/".toList, .run isIdChar, .literal ['/'], .run isIdChar],
      rfl⟩
  exact guarded_of_last 3 (List.forall_mem_singleton.mpr hlast)
    (List.forall_mem_singleton.mpr ⟨by decide, by decide, trivial⟩)
    (List.forall_mem_singleton.mpr ⟨by decide, by decide, by decide, by decide, trivial⟩)
    (List.forall_mem_singleton.mpr ⟨by decide, by decide, by decide, by decide, trivial⟩)

theorem guarded_pattern {urls : List SecretUrl} (h : urls ∈ SECRET_URL_PATTERNS) :
    Guarded urls := by
  simp only [SECRET_URL_PATTERNS, List.mem_cons, List.not_mem_nil, or_false] at h
  rcases h with rfl | rfl | rfl
  · exact guarded_telegram
  · exact guarded_discord
  · exact guarded_slack

section Redaction

variable {patterns : List (List SecretUrl)} {text word : List Char}

def redact (patterns : List (List SecretUrl)) (text : List Char) : List Char :=
  patterns.foldl (fun text urls => substitute (matchUrl urls) (hide urls) 0 text) text

-- A later pattern brings back no URL that an earlier one has taken out.
theorem redact_keeps_out (hguarded : ∀ urls ∈ patterns, Guarded urls) {others : List SecretUrl}
    (hothers : Guarded others) (hword : word ∈ language others) (hclean : ¬ word <:+: text) :
    ¬ word <:+: redact patterns text := by
  obtain ⟨hne, hstar, hmiddle⟩ := hothers.solid hword
  induction patterns generalizing text with
  | nil => exact hclean
  | cons urls patterns ih =>
      obtain ⟨hurls, hpatterns⟩ := List.forall_mem_cons.mp hguarded
      exact ih hpatterns (hurls.marks.clean_of_clean hne hstar hmiddle hclean)

theorem redact_takes_out (hguarded : ∀ urls ∈ patterns, Guarded urls) {urls : List SecretUrl}
    (hurls : urls ∈ patterns) (hword : word ∈ language urls) : ¬ word <:+: redact patterns text := by
  induction patterns generalizing text with
  | nil => cases hurls
  | cons first patterns ih =>
      obtain ⟨hfirst, hpatterns⟩ := List.forall_mem_cons.mp hguarded
      rcases List.mem_cons.mp hurls with heq | hlater
      · subst heq
        have hout : ¬ word <:+: substitute (matchUrl urls) (hide urls) 0 text :=
          hfirst.marks.clean hword
        rw [redact, List.foldl_cons]
        exact redact_keeps_out hpatterns hfirst hword hout
      · exact ih hpatterns hlater

theorem redact_of_clean (hguarded : ∀ urls ∈ patterns, Guarded urls)
    (hclean : ∀ urls ∈ patterns, ∀ word ∈ language urls, ¬ word <:+: text) :
    redact patterns text = text := by
  induction patterns with
  | nil => rfl
  | cons urls patterns ih =>
      obtain ⟨hurls, hpatterns⟩ := List.forall_mem_cons.mp hguarded
      obtain ⟨hfree, hrest⟩ := List.forall_mem_cons.mp hclean
      rw [redact, List.foldl_cons, hurls.marks.substitute_of_clean hfree]
      exact ih hpatterns hrest

theorem clean_redactUrlSecrets (text : List Char) : Clean (redactUrlSecrets text) :=
  fun _ hurls _ hword => redact_takes_out (fun _ => guarded_pattern) hurls hword

theorem redactUrlSecrets_of_clean (h : Clean text) : redactUrlSecrets text = text :=
  redact_of_clean (fun _ => guarded_pattern) h

theorem redactUrlSecrets_eq_self_iff : redactUrlSecrets text = text ↔ Clean text :=
  ⟨fun h => h ▸ clean_redactUrlSecrets text, redactUrlSecrets_of_clean⟩

end Redaction

section Records

-- What a handler can show of a record, the format and each argument.
def LogRecord.Hides (record : LogRecord) : Prop :=
  (∀ text, record.msg = .str text → Clean text) ∧
    ∀ arg ∈ record.args.values, ∀ text ∈ arg.shown, Clean text

theorem clean_maybeRedactAny (arg : Arg) : ∀ text ∈ (maybeRedactAny arg).shown, Clean text := by
  intro text htext
  cases arg with
  | str shown =>
      obtain rfl := Option.some.inj htext
      exact clean_redactUrlSecrets shown
  | other shown =>
      cases shown with
      | none => cases htext
      | some shown =>
          rw [maybeRedactAny] at htext
          split at htext
          · next hsame =>
              obtain rfl := Option.some.inj htext
              exact redactUrlSecrets_eq_self_iff.mp hsame
          · obtain rfl := Option.some.inj htext
            exact clean_redactUrlSecrets shown

theorem maybeRedactAny_of_clean {arg : Arg} (h : ∀ text ∈ arg.shown, Clean text) :
    maybeRedactAny arg = arg := by
  cases arg with
  | str text => exact congrArg Arg.str (redactUrlSecrets_of_clean (h text rfl))
  | other shown =>
      cases shown with
      | none => rfl
      | some shown => exact if_pos (redactUrlSecrets_of_clean (h shown rfl))

theorem Args.values_map (f : Arg → Arg) (args : Args) : (args.map f).values = args.values.map f := by
  cases args with
  | positional args => rfl
  | named args => simp [Args.map, Args.values]

theorem Args.map_eq_self {f : Arg → Arg} {args : Args} (h : ∀ arg ∈ args.values, f arg = arg) :
    args.map f = args := by
  cases args with
  | positional args =>
      exact congrArg Args.positional ((List.map_congr_left h).trans (List.map_id args))
  | named args =>
      refine congrArg Args.named ((List.map_congr_left fun entry hentry => ?_).trans (List.map_id args))
      rw [h entry.2 (List.mem_map_of_mem hentry)]
      rfl

theorem hides_filter (record : LogRecord) : (filter record).Hides := by
  refine ⟨fun text htext => ?_, fun arg harg => ?_⟩
  · rw [filter] at htext
    split at htext
    · cases htext
      exact clean_redactUrlSecrets _
    · cases htext
  · rw [filter, Args.values_map] at harg
    obtain ⟨before, -, rfl⟩ := List.mem_map.mp harg
    exact clean_maybeRedactAny before

theorem filter_of_hides {record : LogRecord} (h : record.Hides) : filter record = record := by
  obtain ⟨msg, args⟩ := record
  obtain ⟨hmsg, hargs⟩ := h
  have hargsSame : args.map maybeRedactAny = args :=
    Args.map_eq_self fun arg harg => maybeRedactAny_of_clean (hargs arg harg)
  cases msg with
  | str text =>
      rw [filter, hargsSame]
      dsimp only
      rw [redactUrlSecrets_of_clean (hmsg text rfl)]
  | other shown => rw [filter, hargsSame]

-- Whatever is logged: no part of the record that a handler gets holds a secret by itself, and only
-- records with a part that does are rewritten. A URL that is split over the message and an argument
-- is put together later, by getMessage, and stays.
theorem secret_urls_hidden (record : LogRecord) :
    (filter record).Hides ∧ filter (filter record) = filter record ∧
      (filter record = record ↔ record.Hides) :=
  ⟨hides_filter record, filter_of_hides (hides_filter record),
    fun h => h ▸ hides_filter record, filter_of_hides⟩

example : redactUrlSecrets "api.telegram.org/bot42:Ab-c/getMe".toList =
    "api.telegram.org/bot***REDACTED***/getMe".toList := by decide

end Records

end EvoClaw.Logging
