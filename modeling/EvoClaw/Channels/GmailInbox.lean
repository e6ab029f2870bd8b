import EvoClaw.EventSystem.Runs
import EvoClaw.Json
import EvoClaw.Keyed
import Mathlib.Data.List.Perm.Subperm

-- GmailChannel._check_inbox, polling a mailbox from which nothing goes away.
namespace EvoClaw.Channels

open EventSystem

section Messages

-- str.lower
variable (lower : List Char → List Char)

-- `listed` says that the query of the list call finds the mail, and `body` is what
-- _extract_body makes of its payload.
structure Mail where
  id : String
  listed : Bool
  headers : List (List Char × List Char)
  body : List Char
deriving DecidableEq

-- The arguments of _on_message.
structure Incoming where
  jid : List Char
  sender : List Char
  senderName : List Char
  content : List Char
deriving DecidableEq

-- re.search(r"<([^>]+)>", raw)
def bracketed : List Char → Option (List Char)
  | [] => none
  | c :: rest =>
      if c = '<' ∧ rest.takeWhile (· ≠ '>') ≠ [] ∧ '>' ∈ rest then
        some (rest.takeWhile (· ≠ '>'))
      else bracketed rest

def extractEmail (raw : List Char) : List Char :=
  match bracketed raw with
  | some email => strip email
  | none => strip raw

-- headers.get(name, ""), where the last header of a name wins
def Mail.header (mail : Mail) (name : String) : List Char :=
  ((mail.headers.reverse.find? fun header => lower header.1 = name.toList).map Prod.snd).getD []

-- None for a mail that is skipped.
def Mail.incoming (mail : Mail) (emailAddress : List Char) : Option Incoming :=
  let senderRaw := mail.header lower "from"
  let senderEmail := extractEmail senderRaw
  let autoSubmitted := mail.header lower "auto-submitted"
  if senderEmail = [] then none
  else if emailAddress ≠ [] ∧ lower senderEmail = lower emailAddress then none
  else if autoSubmitted ≠ [] ∧ lower autoSubmitted ≠ "no".toList then none
  else if mail.header lower "x-auto-response-suppress" ≠ [] then none
  else some
    { jid := "gmail:".toList ++ senderEmail
      sender := senderEmail
      senderName := senderRaw
      content := if mail.body = [] then mail.header lower "subject" else mail.body }

end Messages

section Polling

def SEEN_IDS_MAX : Nat := 10000

-- maxResults
def PAGE_SIZE : Nat := 20

structure GmailSettings where
  lower : List Char → List Char
  emailAddress : List Char

-- The mailbox has the newest mail first. `handled` is the history of the mails that were fetched,
-- each with what was passed to _on_message, if anything.
structure Gmail where
  mailbox : List Mail := []
  connected : Bool := true
  seenMessageIds : List String := []
  handled : List (String × Option Incoming) := []

-- An HttpError has a status.
inductive GmailEvent where
  | arrive (mail : Mail)
  | poll (list : Except Nat Unit) (fetch : String → Except Nat Unit)

def Gmail.page (gmail : Gmail) : List String :=
  ((gmail.mailbox.filter Mail.listed).take PAGE_SIZE).map Mail.id

-- _seen_message_ids[msg_id] = True, with the oldest entry evicted beyond the cap
def Gmail.remember (gmail : Gmail) (id : String) : Gmail :=
  let seen := gmail.seenMessageIds ++ [id]
  { gmail with seenMessageIds := if SEEN_IDS_MAX < seen.length then seen.tail else seen }

def Gmail.handle (settings : GmailSettings) (gmail : Gmail) (mail : Mail) : Gmail :=
  { gmail with
    handled := gmail.handled ++ [(mail.id, mail.incoming settings.lower settings.emailAddress)] }

-- The loop's body. An exception of _on_message is logged.
def Gmail.check (settings : GmailSettings) (fetch : String → Except Nat Unit) (gmail : Gmail)
    (id : String) : Gmail :=
  if id ∈ gmail.seenMessageIds then
    { gmail with seenMessageIds := gmail.seenMessageIds.erase id ++ [id] }
  else
    match fetch id with
    | .error _ => gmail.remember id
    | .ok () =>
        match gmail.mailbox.find? fun mail => mail.id = id with
        | some mail => (gmail.remember id).handle settings mail
        | none => gmail.remember id

def Gmail.checkInbox (settings : GmailSettings) (gmail : Gmail) (list : Except Nat Unit)
    (fetch : String → Except Nat Unit) : Gmail :=
  match list with
  | .error status => if status = 401 then { gmail with connected := false } else gmail
  | .ok () => gmail.page.foldl (Gmail.check settings fetch) gmail

-- A mail arrives with an id of its own, and the poll loop ends once it is disconnected.
def Gmail.step (settings : GmailSettings) (gmail : Gmail) : GmailEvent → Option Gmail
  | .arrive mail =>
      if mail.id ∈ gmail.mailbox.map Mail.id then none
      else some { gmail with mailbox := mail :: gmail.mailbox }
  | .poll list fetch =>
      if gmail.connected then some (gmail.checkInbox settings list fetch) else none

end Polling

section Property

-- Each id that is seen was fetched and then handed over or skipped, as its mail says, and no
-- mail more than once.
structure Gmail.Accounted (settings : GmailSettings) (gmail : Gmail) : Prop where
  seen : ∀ id ∈ gmail.seenMessageIds, id ∈ gmail.handled.map Prod.fst
  genuine : ∀ entry ∈ gmail.handled, ∃ mail ∈ gmail.mailbox, mail.id = entry.1 ∧
    entry.2 = mail.incoming settings.lower settings.emailAddress
  once : (gmail.handled.map Prod.fst).Nodup

-- The calls of a poll succeed.
def Succeeds (gmail : Gmail) : GmailEvent → Prop
  | .arrive _ => False
  | .poll list fetch =>
      list = .ok () ∧ ∀ id ∈ gmail.page, id ∉ gmail.seenMessageIds → (fetch id).isOk = true

def Sweeps (settings : GmailSettings) (gmail : Gmail) (event : GmailEvent) : Prop :=
  Succeeds gmail event → ∀ next, gmail.step settings event = some next →
    ∀ mail ∈ next.mailbox, mail.listed = true → mail.id ∈ next.seenMessageIds

structure Ingests (settings : GmailSettings) (events : List GmailEvent) : Prop where
  accounted : Always (Gmail.step settings) (Gmail.Accounted settings) {} events
  sweeps : Along (Gmail.step settings) (Sweeps settings) {} events

-- A poll that gets a listing fetches all new mails of its page, and they are all the new mails
-- that the query finds.
def PollsWhole (gmail : Gmail) : GmailEvent → Prop
  | .arrive _ => True
  | .poll (.error _) _ => True
  | .poll (.ok ()) fetch =>
      (∀ id ∈ gmail.page, id ∉ gmail.seenMessageIds → (fetch id).isOk = true) ∧
        ∀ mail ∈ gmail.mailbox, mail.listed = true → mail.id ∉ gmail.seenMessageIds →
          mail.id ∈ gmail.page

end Property

section Checking

variable {settings : GmailSettings} {gmail next : Gmail} {event : GmailEvent}
  {fetch : String → Except Nat Unit} {id : String} {ids : List String}

-- What the checks keep whatever the fetches do.
structure Gmail.Sound (settings : GmailSettings) (gmail : Gmail) : Prop where
  ids : (gmail.mailbox.map Mail.id).Nodup
  seenOnce : gmail.seenMessageIds.Nodup
  known : ∀ id ∈ gmail.seenMessageIds, id ∈ gmail.mailbox.map Mail.id
  handledSeen : ∀ id ∈ gmail.handled.map Prod.fst, id ∈ gmail.seenMessageIds
  handledOnce : (gmail.handled.map Prod.fst).Nodup
  genuine : ∀ entry ∈ gmail.handled, ∃ mail ∈ gmail.mailbox, mail.id = entry.1 ∧
    entry.2 = mail.incoming settings.lower settings.emailAddress

-- Below the cap nothing is evicted.
theorem remember_eq (h : gmail.Sound settings) (hfew : gmail.mailbox.length < SEEN_IDS_MAX)
    (id : String) :
    gmail.remember id = { gmail with seenMessageIds := gmail.seenMessageIds ++ [id] } := by
  have hlength := (List.subperm_of_subset h.seenOnce h.known).length_le
  rw [List.length_map] at hlength
  unfold Gmail.remember
  simp only
  rw [if_neg]
  rw [List.length_append, List.length_singleton]
  omega

-- What one check makes of the histories.
structure Checked (fetch : String → Except Nat Unit) (gmail next : Gmail) (ids : List String) :
    Prop where
  mailbox : next.mailbox = gmail.mailbox
  seen : ∀ id, id ∈ next.seenMessageIds ↔ id ∈ gmail.seenMessageIds ∨ id ∈ ids
  handled : next.handled.map Prod.fst = gmail.handled.map Prod.fst ++
    ids.filter fun id => id ∉ gmail.seenMessageIds ∧ (fetch id).isOk

theorem check_seen (h : gmail.Sound settings) (hseen : id ∈ gmail.seenMessageIds) :
    (gmail.check settings fetch id).Sound settings ∧
      Checked fetch gmail (gmail.check settings fetch id) [id] := by
  have hperm : (gmail.seenMessageIds.erase id ++ [id]).Perm gmail.seenMessageIds :=
    (List.perm_append_singleton id _).trans (List.perm_cons_erase hseen).symm
  rw [Gmail.check, if_pos hseen]
  refine ⟨{ h with
    seenOnce := hperm.nodup_iff.mpr h.seenOnce
    known := fun other hother => h.known other (hperm.mem_iff.mp hother)
    handledSeen := fun other hother => hperm.mem_iff.mpr (h.handledSeen other hother) },
    rfl, fun other => ?_, ?_⟩
  · rw [hperm.mem_iff, List.mem_singleton]
    constructor
    · exact Or.inl
    · rintro (hmem | rfl)
      · exact hmem
      · exact hseen
  · simp [hseen]

theorem find_mail (h : gmail.Sound settings) (hid : id ∈ gmail.mailbox.map Mail.id) :
    ∃ mail ∈ gmail.mailbox, mail.id = id ∧
      gmail.mailbox.find? (fun mail => mail.id = id) = some mail := by
  obtain ⟨mail, hmail, rfl⟩ := List.mem_map.mp hid
  exact ⟨mail, hmail, rfl, Keyed.find?_of_mem h.ids hmail⟩

theorem sound_remember (h : gmail.Sound settings) (hid : id ∈ gmail.mailbox.map Mail.id)
    (hnew : id ∉ gmail.seenMessageIds) :
    Gmail.Sound settings { gmail with seenMessageIds := gmail.seenMessageIds ++ [id] } :=
  { h with
    seenOnce := h.seenOnce.append (List.nodup_singleton id) (by simpa using hnew)
    known := by
      intro other hother
      rcases List.mem_append.mp hother with hold | hlast
      · exact h.known other hold
      · rw [List.mem_singleton.mp hlast]
        exact hid
    handledSeen := fun other hother => List.mem_append_left _ (h.handledSeen other hother) }

theorem check_new (h : gmail.Sound settings) (hfew : gmail.mailbox.length < SEEN_IDS_MAX)
    (hid : id ∈ gmail.mailbox.map Mail.id) (hnew : id ∉ gmail.seenMessageIds) :
    (gmail.check settings fetch id).Sound settings ∧
      Checked fetch gmail (gmail.check settings fetch id) [id] := by
  have hremembered := sound_remember h hid hnew
  obtain ⟨mail, hmail, hmailId, hfind⟩ := find_mail h hid
  rw [Gmail.check, if_neg hnew]
  cases hfetch : fetch id with
  | error status =>
      simp only
      rw [remember_eq h hfew]
      refine ⟨hremembered, rfl, fun other => List.mem_append, ?_⟩
      simp [hfetch, Except.isOk, Except.toBool]
  | ok _ =>
      have hunhandled : id ∉ gmail.handled.map Prod.fst := fun hmem =>
        hnew (h.handledSeen id hmem)
      simp only [hfind]
      rw [remember_eq h hfew]
      refine ⟨{ hremembered with
        handledSeen := fun other hother => ?_
        handledOnce := ?_
        genuine := fun entry hentry => ?_ }, rfl, fun other => List.mem_append, ?_⟩
      · simp only [Gmail.handle, List.map_append, List.map_cons, List.map_nil, hmailId] at hother
        rcases List.mem_append.mp hother with hold | hlast
        · exact hremembered.handledSeen other hold
        · exact List.mem_append_right _ hlast
      · simp only [Gmail.handle, List.map_append, List.map_cons, List.map_nil, hmailId]
        exact h.handledOnce.append (List.nodup_singleton id) (by simpa using hunhandled)
      · rcases List.mem_append.mp hentry with hold | hlast
        · exact h.genuine entry hold
        · rw [List.mem_singleton.mp hlast]
          exact ⟨mail, hmail, rfl, rfl⟩
      · simp [Gmail.handle, hmailId, hfetch, hnew, Except.isOk, Except.toBool]

variable (fetch) in
theorem check_spec (h : gmail.Sound settings) (hfew : gmail.mailbox.length < SEEN_IDS_MAX)
    (hid : id ∈ gmail.mailbox.map Mail.id) :
    (gmail.check settings fetch id).Sound settings ∧
      Checked fetch gmail (gmail.check settings fetch id) [id] := by
  by_cases hseen : id ∈ gmail.seenMessageIds
  · exact check_seen h hseen
  · exact check_new h hfew hid hseen

theorem Checked.cons (hfirst : Checked fetch gmail next [id])
    {last : Gmail} (hrest : Checked fetch next last ids) (hid : id ∉ ids) :
    Checked fetch gmail last (id :: ids) where
  mailbox := hrest.mailbox.trans hfirst.mailbox
  seen other := by
    rw [hrest.seen, hfirst.seen, List.mem_singleton, List.mem_cons, or_assoc]
  handled := by
    have hothers : (ids.filter fun other => other ∉ next.seenMessageIds ∧ (fetch other).isOk) =
        ids.filter fun other => other ∉ gmail.seenMessageIds ∧ (fetch other).isOk := by
      refine List.filter_congr fun other hother => ?_
      have hne : other ≠ id := fun heq => hid (heq ▸ hother)
      simp [hfirst.seen, hne]
    rw [hrest.handled, hfirst.handled, hothers, List.append_assoc, ← List.filter_append,
      List.singleton_append]

theorem checks_spec (h : gmail.Sound settings) (hfew : gmail.mailbox.length < SEEN_IDS_MAX)
    (hids : ids.Nodup) (hknown : ∀ id ∈ ids, id ∈ gmail.mailbox.map Mail.id) :
    (ids.foldl (Gmail.check settings fetch) gmail).Sound settings ∧
      Checked fetch gmail (ids.foldl (Gmail.check settings fetch) gmail) ids := by
  induction ids generalizing gmail with
  | nil => exact ⟨h, rfl, fun id => by simp, by simp⟩
  | cons id ids ih =>
      rw [List.nodup_cons] at hids
      obtain ⟨hsound, hfirst⟩ := check_spec fetch h hfew (hknown id List.mem_cons_self)
      have hrest := ih hsound (by rwa [hfirst.mailbox]) hids.2 fun other hother => by
        rw [hfirst.mailbox]
        exact hknown other (List.mem_cons_of_mem id hother)
      exact ⟨hrest.1, hfirst.cons hrest.2 hids.1⟩

end Checking

section Steps

variable {settings : GmailSettings} {gmail next : Gmail} {event : GmailEvent}
  {fetch : String → Except Nat Unit}

theorem page_sublist (gmail : Gmail) : gmail.page.Sublist (gmail.mailbox.map Mail.id) :=
  ((List.take_sublist _ _).trans List.filter_sublist).map Mail.id

variable (fetch) in
theorem page_spec (h : gmail.Sound settings) (hfew : gmail.mailbox.length < SEEN_IDS_MAX) :
    (gmail.checkInbox settings (.ok ()) fetch).Sound settings ∧
      Checked fetch gmail (gmail.checkInbox settings (.ok ()) fetch) gmail.page :=
  checks_spec h hfew (h.ids.sublist (page_sublist gmail)) fun _ hid =>
    (page_sublist gmail).subset hid

theorem Gmail.Sound.accounted (h : gmail.Sound settings)
    (hseen : ∀ id ∈ gmail.seenMessageIds, id ∈ gmail.handled.map Prod.fst) :
    gmail.Accounted settings :=
  ⟨hseen, h.genuine, h.handledOnce⟩

theorem sound_arrive {mail : Mail} (h : gmail.Sound settings)
    (hnew : mail.id ∉ gmail.mailbox.map Mail.id) :
    Gmail.Sound settings { gmail with mailbox := mail :: gmail.mailbox } :=
  { h with
    ids := List.nodup_cons.mpr ⟨hnew, h.ids⟩
    known := fun id hid => List.mem_cons_of_mem _ (h.known id hid)
    genuine := fun entry hentry => by
      obtain ⟨sent, hsent, hentry⟩ := h.genuine entry hentry
      exact ⟨sent, List.mem_cons_of_mem _ hsent, hentry⟩ }

-- The new mails of the page are accounted for exactly when they are all fetched.
theorem seen_handled_iff (h : gmail.Accounted settings) (hsound : gmail.Sound settings)
    {ids : List String} (hchecked : Checked fetch gmail next ids) :
    (∀ id ∈ next.seenMessageIds, id ∈ next.handled.map Prod.fst) ↔
      ∀ id ∈ ids, id ∉ gmail.seenMessageIds → (fetch id).isOk = true := by
  constructor
  · intro hseen id hid hnew
    have hhandled := hseen id ((hchecked.seen id).mpr (Or.inr hid))
    rw [hchecked.handled, List.mem_append] at hhandled
    rcases hhandled with hold | htaken
    · exact absurd (hsound.handledSeen id hold) hnew
    · simp only [List.mem_filter, decide_eq_true_eq] at htaken
      exact htaken.2.2
  · intro hfetched id hid
    rw [hchecked.handled, List.mem_append]
    by_cases hseen : id ∈ gmail.seenMessageIds
    · exact Or.inl (h.seen id hseen)
    · have hpage := ((hchecked.seen id).mp hid).resolve_left hseen
      right
      simp only [List.mem_filter, decide_eq_true_eq]
      exact ⟨hpage, hseen, hfetched id hpage hseen⟩

-- What holds of the states that the run passes through.
def Gmail.Good (settings : GmailSettings) (gmail : Gmail) : Prop :=
  gmail.Sound settings ∧ gmail.Accounted settings

theorem good_step (h : gmail.Good settings) (hguard : PollsWhole gmail event)
    (hfew : gmail.mailbox.length < SEEN_IDS_MAX) (hstep : gmail.step settings event = some next) :
    next.Good settings := by
  cases event with
  | arrive mail =>
      simp only [Gmail.step] at hstep
      split at hstep
      · cases hstep
      · next hnew =>
          cases hstep
          have hsound := sound_arrive h.1 hnew
          exact ⟨hsound, hsound.accounted h.2.seen⟩
  | poll list fetch =>
      simp only [Gmail.step] at hstep
      split at hstep
      · cases hstep
        cases list with
        | error status =>
            simp only [Gmail.checkInbox]
            split
            · exact ⟨{ h.1 with }, { h.2 with }⟩
            · exact h
        | ok _ =>
            obtain ⟨hsound, hchecked⟩ := page_spec fetch h.1 hfew
            exact ⟨hsound, hsound.accounted
              ((seen_handled_iff h.2 h.1 hchecked).mpr hguard.1)⟩
      · cases hstep

theorem sweeps_of_pollsWhole (h : gmail.Good settings) (hguard : PollsWhole gmail event)
    (hfew : gmail.mailbox.length < SEEN_IDS_MAX) : Sweeps settings gmail event := by
  intro hsucceeds next hstep mail hmail hlisted
  cases event with
  | arrive mail => exact hsucceeds.elim
  | poll list fetch =>
      obtain ⟨rfl, -⟩ := hsucceeds
      simp only [Gmail.step] at hstep
      split at hstep
      · cases hstep
        obtain ⟨-, hchecked⟩ := page_spec fetch h.1 hfew
        rw [hchecked.mailbox] at hmail
        rw [hchecked.seen]
        by_cases hseen : mail.id ∈ gmail.seenMessageIds
        · exact Or.inl hseen
        · exact Or.inr (hguard.2 mail hmail hlisted hseen)
      · cases hstep

-- A step is lawful exactly when a poll takes the whole listing.
theorem lawful_iff_pollsWhole (h : gmail.Good settings)
    (hfew : gmail.mailbox.length < SEEN_IDS_MAX) (hstep : gmail.step settings event = some next) :
    ((∀ other, gmail.step settings event = some other → other.Accounted settings) ∧
      Sweeps settings gmail event) ↔ PollsWhole gmail event := by
  constructor
  · rintro ⟨haccounted, hsweeps⟩
    have hnext := haccounted next hstep
    cases event with
    | arrive mail => trivial
    | poll list fetch =>
        cases list with
        | error status => trivial
        | ok _ =>
            have hmoved := hstep
            simp only [Gmail.step] at hmoved
            split at hmoved
            · cases hmoved
              obtain ⟨-, hchecked⟩ := page_spec fetch h.1 hfew
              have hfetched := (seen_handled_iff h.2 h.1 hchecked).mp hnext.seen
              refine ⟨hfetched, fun mail hmail hlisted hnew => ?_⟩
              have hseen := hsweeps ⟨rfl, hfetched⟩ _ hstep mail (hchecked.mailbox ▸ hmail) hlisted
              exact ((hchecked.seen mail.id).mp hseen).resolve_left hnew
            · cases hmoved
  · intro hguard
    exact ⟨fun other hother => (good_step h hguard hfew hother).2,
      sweeps_of_pollsWhole h hguard hfew⟩

end Steps

theorem good_start (settings : GmailSettings) : Gmail.Good settings {} :=
  ⟨⟨List.nodup_nil, List.nodup_nil, nofun, nofun, List.nodup_nil, nofun⟩,
    ⟨nofun, nofun, List.nodup_nil⟩⟩

-- The inbox is ingested exactly when every poll takes the whole listing.
theorem gmail_ingests_iff (settings : GmailSettings) (events : List GmailEvent)
    (hfew : Always (Gmail.step settings) (fun gmail => gmail.mailbox.length < SEEN_IDS_MAX) {}
      events) :
    Ingests settings events ↔ Along (Gmail.step settings) PollsWhole {} events := by
  have hextra := hfew.along_state
  have hlaw := along_iff (Gmail.Good settings)
    (fun _ _ _ hgood hguard hsmall hstep => good_step hgood hguard hsmall hstep)
    (fun _ _ _ hgood hsmall hstep => lawful_iff_pollsWhole hgood hsmall hstep)
    (good_start settings) hextra
  rw [← hlaw, along_and]
  constructor
  · intro h
    exact ⟨(always_iff_next.mp h.accounted).2, h.sweeps⟩
  · rintro ⟨haccounted, hsweeps⟩
    exact ⟨always_iff_next.mpr ⟨(good_start settings).2, haccounted⟩, hsweeps⟩

def asciiGmail : GmailSettings :=
  { lower := List.map Char.toLower, emailAddress := "bot@example.org".toList }

def mailFromAnn : Mail :=
  { id := "m1", listed := true, headers := [("From".toList, "Ann <ann@example.org>".toList)],
    body := "hello".toList }

theorem gmail_ingests_iff_two_polls :
    Ingests asciiGmail [.arrive mailFromAnn, .poll (.error 500) fun _ => .ok (),
      .poll (.ok ()) fun _ => .ok ()] ↔
    Along (Gmail.step asciiGmail) PollsWhole {} [.arrive mailFromAnn,
      .poll (.error 500) fun _ => .ok (), .poll (.ok ()) fun _ => .ok ()] :=
  gmail_ingests_iff asciiGmail _ (by decide +kernel)

-- The fetch fails once, and the next poll takes the mail for one that is done.
theorem gmail_loses_unfetched : ¬ Ingests asciiGmail [.arrive mailFromAnn,
    .poll (.ok ()) fun _ => .error 503, .poll (.ok ()) fun _ => .ok ()] := by
  intro h
  have hrun : run (Gmail.step asciiGmail) {} [.arrive mailFromAnn,
      .poll (.ok ()) fun _ => .error 503, .poll (.ok ()) fun _ => .ok ()] =
        some { mailbox := [mailFromAnn], seenMessageIds := ["m1"] } := by rfl
  have hlost := (h.accounted.reached hrun).seen "m1" (List.mem_singleton_self _)
  cases hlost

example : mailFromAnn.incoming asciiGmail.lower asciiGmail.emailAddress =
    some ⟨"gmail:ann@example.org".toList, "ann@example.org".toList,
      "Ann <ann@example.org>".toList, "hello".toList⟩ := by decide +kernel

end EvoClaw.Channels
