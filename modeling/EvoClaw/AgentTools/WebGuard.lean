import EvoClaw.EventSystem.Runs
import Mathlib.Data.List.Infix

-- Which addresses a web fetch connects to.
namespace EvoClaw.AgentTools

open EventSystem

-- An address as getaddrinfo gives it, and what ipaddress says of it. `parsed` tells whether
-- ip_address takes its text.
structure Address where
  text : String
  parsed : Bool
  isPrivate : Bool
  isLoopback : Bool
  isLinkLocal : Bool
  isReserved : Bool
  isMulticast : Bool
  isUnspecified : Bool
  deriving DecidableEq

def Address.forbidden (address : Address) : Bool :=
  address.isPrivate || address.isLoopback || address.isLinkLocal || address.isReserved ||
    address.isMulticast || address.isUnspecified

-- The answer of getaddrinfo, and none for an exception.
abbrev Lookup := Option (List Address)

-- `parsed` is the scheme in lower case and the hostname that urlparse gives, or the text of
-- its exception.
structure Url where
  text : String
  parsed : Except String (String × String)

structure Web where
  lower : String → String
  repr : String → String

def BLOCKED_HOSTS : List String := ["localhost", "metadata.google.internal"]

def blockedBeginnings : List String := ["169.254.", "metadata.google.internal", "instance-data"]

-- The letters beyond ASCII that re.IGNORECASE takes for ASCII ones.
def ignoreCase (c : Char) : Char :=
  if c = 'ſ' then 's' else if c = 'ı' then 'i' else c

def isSsrfTarget (web : Web) (hostname : String) (answer : Lookup) : Bool :=
  if hostname = "" then true
  else if web.lower hostname ∈ BLOCKED_HOSTS then true
  else if blockedBeginnings.any fun beginning =>
      decide (beginning.toList <+: (web.lower hostname).toList.map ignoreCase) then true
  else
    match answer with
    | some infos => infos.any fun address =>
        address.parsed && (address.forbidden || decide ("169.254.".toList <+: address.text.toList))
    | none => false

-- What the check at connect time blocks. It looks at the first address alone.
def blockedAtConnect : Lookup → Option Address
  | some (address :: _) => if address.parsed && address.forbidden then some address else none
  | _ => none

-- socket.create_connection tries the addresses in order.
def connected (own : Lookup) (accepts : Address → Bool) : Option Address :=
  own.bind (List.find? accepts)

inductive Phase
  | idle
  | fetching (hostname : String) (redirects : Nat)
  | done (answer : String)
  deriving DecidableEq

structure Fetch where
  url : String := ""
  phase : Phase := .idle
  opened : List Address := []
  deriving DecidableEq

-- The resolver answers each lookup as it likes. `exc` is the text of an exception that urllib
-- raises there.
inductive FetchEvent
  | fetch (url : Url) (answer : Lookup)
  | connect (host : String) (check own : Lookup) (accepts : Address → Bool) (exc : String)
  | redirect (newurl : Url) (answer : Lookup) (exc : Option String)
  | finish (answer : String)

def MAX_REDIRECTS : Nat := 5

def Fetch.answer (fetch : Fetch) (text : String) : Fetch :=
  { fetch with phase := .done text }

def Fetch.urlError (fetch : Fetch) (reason : String) : Fetch :=
  fetch.answer ("URL error fetching " ++ fetch.url ++ ": " ++ reason)

def Fetch.begin (web : Web) (fetch : Fetch) (url : Url) (answer : Lookup) : Fetch :=
  match url.parsed with
  | .error exc => fetch.answer ("Error: invalid URL: " ++ exc)
  | .ok (scheme, hostname) =>
      if scheme ∉ ["http", "https"] then
        fetch.answer ("Error: unsupported URL scheme '" ++ scheme ++
          "' — only http/https are allowed")
      else if isSsrfTarget web hostname answer then
        fetch.answer ("Error: access denied — URL targets a private or reserved address " ++
          "(SSRF protection)")
      else { fetch with url := url.text, phase := .fetching hostname 0 }

-- _safe_create_connection
def Fetch.connect (web : Web) (fetch : Fetch) (check own : Lookup) (accepts : Address → Bool)
    (exc : String) : Fetch :=
  match blockedAtConnect check with
  | some address =>
      fetch.urlError ("<urlopen error SSRF: connection to private IP " ++ web.repr address.text ++
        " blocked (DNS rebinding protection)>")
  | none =>
      match connected own accepts with
      | some address => { fetch with opened := fetch.opened ++ [address] }
      | none => fetch.urlError exc

def Fetch.redirect (web : Web) (fetch : Fetch) (redirects : Nat) (newurl : Url) (answer : Lookup)
    (exc : Option String) : Fetch :=
  if MAX_REDIRECTS < redirects + 1 then fetch.urlError "Too many redirects (> 5)"
  else
    match newurl.parsed with
    | .error exc =>
        fetch.urlError ("Redirect to unverifiable target blocked (SSRF fail-safe): " ++ exc)
    | .ok (_, hostname) =>
        if isSsrfTarget web hostname answer then
          fetch.urlError ("Redirect to private address blocked (SSRF): " ++ hostname)
        else
          match exc with
          | some text => fetch.answer text
          | none => { fetch with phase := .fetching hostname (redirects + 1) }

def fetchStep (web : Web) (fetch : Fetch) : FetchEvent → Option Fetch
  | .fetch url answer =>
      match fetch.phase with
      | .idle => some (fetch.begin web url answer)
      | _ => none
  | .connect _ check own accepts exc =>
      match fetch.phase with
      | .fetching _ _ => some (fetch.connect web check own accepts exc)
      | _ => none
  | .redirect newurl answer exc =>
      match fetch.phase with
      | .fetching _ redirects => some (fetch.redirect web redirects newurl answer exc)
      | _ => none
  | .finish answer =>
      match fetch.phase with
      | .fetching _ _ => some (fetch.answer answer)
      | _ => none

section Spec

def OnlyPublic (fetch : Fetch) : Prop :=
  ∀ address ∈ fetch.opened, address.forbidden = false

-- The lookup of the check begins with a forbidden address where the lookup that
-- create_connection makes leads to one.
def Announced (_ : Fetch) : FetchEvent → Prop
  | .connect _ check own accepts _ =>
      ∀ address, connected own accepts = some address → address.forbidden = true →
        ∃ first rest, check = some (first :: rest) ∧ first.parsed = true ∧ first.forbidden = true
  | _ => True

end Spec

variable {web : Web} {fetch next : Fetch} {event : FetchEvent} {address : Address}

@[simp] theorem opened_answer (text : String) : (fetch.answer text).opened = fetch.opened := rfl

@[simp] theorem opened_urlError (reason : String) :
    (fetch.urlError reason).opened = fetch.opened := rfl

@[simp] theorem opened_begin (url : Url) (answer : Lookup) :
    (fetch.begin web url answer).opened = fetch.opened := by
  unfold Fetch.begin
  repeat' split
  all_goals rfl

@[simp] theorem opened_redirect (redirects : Nat) (newurl : Url) (answer : Lookup)
    (exc : Option String) :
    (fetch.redirect web redirects newurl answer exc).opened = fetch.opened := by
  unfold Fetch.redirect
  repeat' split
  all_goals rfl

theorem blockedAtConnect_isSome {check : Lookup} :
    (blockedAtConnect check).isSome = true ↔
      ∃ first rest, check = some (first :: rest) ∧ first.parsed = true ∧
        first.forbidden = true := by
  unfold blockedAtConnect
  split
  · next first rest => simp
  · next hcheck =>
    constructor
    · intro h
      cases h
    · rintro ⟨first, rest, rfl, -⟩
      exact absurd rfl (hcheck first rest)

-- What a connect adds to the connections.
theorem opened_connect (check own : Lookup) (accepts : Address → Bool) (exc : String) :
    (fetch.connect web check own accepts exc).opened =
      fetch.opened ++
        if (blockedAtConnect check).isSome then [] else (connected own accepts).toList := by
  unfold Fetch.connect
  cases blockedAtConnect check with
  | some blocked => simp
  | none => cases connected own accepts <;> simp

theorem onlyPublic_connect {host exc : String} {check own : Lookup} {accepts : Address → Bool}
    (h : OnlyPublic fetch) :
    OnlyPublic (fetch.connect web check own accepts exc) ↔
      Announced fetch (.connect host check own accepts exc) := by
  unfold OnlyPublic Announced
  simp only [← blockedAtConnect_isSome]
  rw [opened_connect]
  by_cases hblocked : (blockedAtConnect check).isSome = true
  · rw [if_pos hblocked, List.append_nil]
    exact iff_of_true h fun _ _ _ => hblocked
  · rw [if_neg hblocked]
    constructor
    · intro hpublic address hconnected hforbidden
      have hmem : address ∈ fetch.opened ++ (connected own accepts).toList := by
        rw [hconnected]
        exact List.mem_append_right _ List.mem_cons_self
      rw [hpublic address hmem] at hforbidden
      cases hforbidden
    · intro hannounced address hmem
      rcases List.mem_append.mp hmem with hmem | hmem
      · exact h address hmem
      · rw [Option.mem_toList] at hmem
        by_contra hforbidden
        exact hblocked (hannounced address hmem (Bool.not_eq_false _ ▸ hforbidden))

theorem onlyPublic_of_opened (hopened : next.opened = fetch.opened) (h : OnlyPublic fetch) :
    OnlyPublic next := fun address hmem => h address (hopened ▸ hmem)

-- A step keeps to public addresses if the resolver announces the others.
theorem onlyPublic_step (h : OnlyPublic fetch) (hstep : fetchStep web fetch event = some next) :
    OnlyPublic next ↔ Announced fetch event := by
  cases event with
  | fetch url answer =>
      dsimp only [fetchStep] at hstep
      split at hstep
      · cases hstep
        exact iff_of_true (onlyPublic_of_opened (opened_begin url answer) h) trivial
      · cases hstep
  | connect host check own accepts exc =>
      dsimp only [fetchStep] at hstep
      split at hstep
      · cases hstep
        exact onlyPublic_connect h
      · cases hstep
  | redirect newurl answer exc =>
      dsimp only [fetchStep] at hstep
      split at hstep
      · next redirects _ =>
        cases hstep
        exact iff_of_true
          (onlyPublic_of_opened (opened_redirect redirects newurl answer exc) h) trivial
      · cases hstep
  | finish answer =>
      dsimp only [fetchStep] at hstep
      split at hstep
      · cases hstep
        exact iff_of_true h trivial
      · cases hstep

-- The connections of a fetch are all to public addresses where the resolver announces the
-- others to the check.
theorem only_public_iff (web : Web) (events : List FetchEvent) :
    Always (fetchStep web) OnlyPublic {} events ↔ Along (fetchStep web) Announced {} events := by
  apply always_iff_along OnlyPublic
  · intro fetch event next hpublic hannounced hstep
    exact (onlyPublic_step hpublic hstep).mpr hannounced
  · exact fun _ h => h
  · intro fetch event next hpublic hstep hnext
    exact (onlyPublic_step hpublic hstep).mp hnext
  · intro address hmem
    cases hmem

def asciiWeb : Web where
  lower text := String.ofList (text.toList.map Char.toLower)
  repr text := "'" ++ text ++ "'"

def publicAddress : Address :=
  ⟨"93.184.216.34", true, false, false, false, false, false, false⟩

def loopbackAddress : Address :=
  ⟨"127.0.0.1", true, true, true, false, false, false, false⟩

-- The name is public before the fetch and for the check, and the machine itself for the connect.
def rebindingRun : List FetchEvent :=
  [.fetch ⟨"http://example.com/", .ok ("http", "example.com")⟩ (some [publicAddress]),
    .connect "example.com" (some [publicAddress]) (some [loopbackAddress]) (fun _ => true) ""]

theorem rebinding_connects :
    (run (fetchStep asciiWeb) {} rebindingRun).map Fetch.opened = some [loopbackAddress] ∧
      ¬ Always (fetchStep asciiWeb) OnlyPublic {} rebindingRun := by
  have hrun : (run (fetchStep asciiWeb) {} rebindingRun).map Fetch.opened =
      some [loopbackAddress] := by decide +kernel
  refine ⟨hrun, fun halways => ?_⟩
  obtain ⟨final, hfinal, hopened⟩ := Option.map_eq_some_iff.mp hrun
  have hpublic := halways.reached hfinal
  exact absurd (hpublic loopbackAddress (hopened ▸ List.mem_cons_self)) (by decide)

section Steady

-- A resolver that has one answer for a name, and urllib connects to the name that was checked.
def Steady (resolver : String → Lookup) (fetch : Fetch) : FetchEvent → Prop
  | .fetch url answer => ∀ scheme hostname, url.parsed = .ok (scheme, hostname) →
      answer = resolver hostname
  | .connect host check own _ _ => check = resolver host ∧ own = resolver host ∧
      ∀ hostname redirects, fetch.phase = .fetching hostname redirects → host = hostname
  | .redirect url answer _ => ∀ scheme hostname, url.parsed = .ok (scheme, hostname) →
      answer = resolver hostname
  | .finish _ => True

-- All addresses of the name that is fetched from have passed the check before the connect.
def Checked (resolver : String → Lookup) (fetch : Fetch) : Prop :=
  OnlyPublic fetch ∧ ∀ hostname redirects, fetch.phase = .fetching hostname redirects →
    ∀ addresses, resolver hostname = some addresses →
      ∀ address ∈ addresses, address.parsed = true → address.forbidden = false

variable {resolver : String → Lookup}

theorem forbidden_of_not_target {hostname : String} {addresses : List Address}
    (h : isSsrfTarget web hostname (some addresses) = false) (hmem : address ∈ addresses)
    (hparsed : address.parsed = true) : address.forbidden = false := by
  unfold isSsrfTarget at h
  split at h
  · cases h
  split at h
  · cases h
  split at h
  · cases h
  · have hone := List.any_eq_false.mp h address hmem
    rw [hparsed, Bool.true_and, Bool.or_eq_true, not_or] at hone
    exact Bool.not_eq_true _ ▸ hone.1

theorem checked_of_answer {hostname : String} {redirects : Nat} {answer : Lookup}
    (h : OnlyPublic fetch) (htarget : ¬ isSsrfTarget web hostname answer = true)
    (hanswer : answer = resolver hostname) (hphase : next.phase = .fetching hostname redirects)
    (hopened : next.opened = fetch.opened) : Checked resolver next := by
  refine ⟨onlyPublic_of_opened hopened h, ?_⟩
  intro name count hnext addresses haddresses address hmem hparsed
  rw [hphase] at hnext
  cases hnext
  rw [hanswer, haddresses, Bool.not_eq_true] at htarget
  exact forbidden_of_not_target htarget hmem hparsed

theorem checked_answer {text : String} (h : OnlyPublic fetch) :
    Checked resolver (fetch.answer text) :=
  ⟨h, fun _ _ hphase => (by cases hphase)⟩

theorem checked_begin {url : Url} {answer : Lookup} (h : OnlyPublic fetch)
    (hsteady : Steady resolver fetch (.fetch url answer)) :
    Checked resolver (fetch.begin web url answer) := by
  unfold Fetch.begin
  split
  · exact checked_answer h
  · next scheme hostname hurl =>
    split_ifs with hscheme htarget
    · exact checked_answer h
    · exact checked_of_answer h htarget (hsteady scheme hostname hurl) rfl rfl
    · exact checked_answer h

theorem checked_redirect {redirects : Nat} {newurl : Url} {answer : Lookup} {exc : Option String}
    (h : OnlyPublic fetch) (hsteady : Steady resolver fetch (.redirect newurl answer exc)) :
    Checked resolver (fetch.redirect web redirects newurl answer exc) := by
  unfold Fetch.redirect
  split_ifs
  · exact checked_answer h
  split
  · exact checked_answer h
  · next scheme hostname hurl =>
    split_ifs with htarget
    · exact checked_answer h
    split
    · exact checked_answer h
    · exact checked_of_answer h htarget (hsteady scheme hostname hurl) rfl rfl

theorem checked_connect {host exc hostname : String} {redirects : Nat} {check own : Lookup}
    {accepts : Address → Bool}
    (hparsed : ∀ hostname addresses, resolver hostname = some addresses →
      ∀ address ∈ addresses, address.parsed = true)
    (h : Checked resolver fetch) (hphase : fetch.phase = .fetching hostname redirects)
    (hsteady : Steady resolver fetch (.connect host check own accepts exc)) :
    Checked resolver (fetch.connect web check own accepts exc) := by
  obtain ⟨-, hown, hhost⟩ := hsteady
  obtain rfl := hhost hostname redirects hphase
  unfold Fetch.connect
  split
  · exact checked_answer h.1
  split
  · next address hconnected =>
    obtain ⟨addresses, haddresses, hfound⟩ := Option.bind_eq_some_iff.mp hconnected
    rw [hown] at haddresses
    have hmem := List.mem_of_find?_eq_some hfound
    refine ⟨?_, h.2⟩
    intro opened hopened
    rcases List.mem_append.mp hopened with hopened | hopened
    · exact h.1 opened hopened
    · rw [List.mem_singleton] at hopened
      subst hopened
      exact h.2 _ redirects hphase addresses haddresses opened hmem
        (hparsed _ addresses haddresses opened hmem)
  · exact checked_answer h.1

-- Against a resolver that does not change its mind, the check of all addresses before the
-- fetch is enough.
theorem steady_only_public (web : Web)
    (hparsed : ∀ hostname addresses, resolver hostname = some addresses →
      ∀ address ∈ addresses, address.parsed = true)
    {events : List FetchEvent} (hsteady : Along (fetchStep web) (Steady resolver) {} events) :
    Always (fetchStep web) OnlyPublic {} events := by
  refine hsteady.always (Checked resolver) ?_ (fun _ h => h.1) ⟨fun _ h => (by cases h),
    fun _ _ h => (by cases h)⟩
  intro fetch event next h hsteady hstep
  cases event with
  | fetch url answer =>
      dsimp only [fetchStep] at hstep
      split at hstep
      · cases hstep
        exact checked_begin h.1 hsteady
      · cases hstep
  | connect host check own accepts exc =>
      dsimp only [fetchStep] at hstep
      split at hstep
      · next hostname redirects hphase =>
        cases hstep
        exact checked_connect hparsed h hphase hsteady
      · cases hstep
  | redirect newurl answer exc =>
      dsimp only [fetchStep] at hstep
      split at hstep
      · cases hstep
        exact checked_redirect h.1 hsteady
      · cases hstep
  | finish answer =>
      dsimp only [fetchStep] at hstep
      split at hstep
      · cases hstep
        exact checked_answer h.1
      · cases hstep

end Steady

end EvoClaw.AgentTools
